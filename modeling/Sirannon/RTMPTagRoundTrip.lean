import Sirannon.RTMPClient
import Sirannon.RTMPTagSending

/-!
# From the packetizer to the client

However the messages of a video stream and of an audio stream interleave, the
client makes one packet of each frame and keeps the extra data of each stream.
-/

set_option autoImplicit false

namespace Sirannon.RTMPTag
open MachineInt BitString Bits ByteMemory Media StateError

/-! ## Reading a message -/

/-- What a client is given for a packed message. -/
structure Delivers (m : Message) (r : message_t) : Prop where
  type : r.messageTypeId = m.iMessageType
  time : r.timestamp = m.iTimestamp
  length : r.messageLength = m.payload.length
  start : r.oBuffer.Ahead 0 (ofBytes m.payload)

theorem ahead_bytes {b : IBits} {k : ℕ} {xs : List UInt8} (h : b.Ahead (8*k) (ofBytes xs)) :
    b.v = k ∧ load b.buf b.v xs.length = xs := by
  have hv := (IBits.ahead_aligned h).2
  refine ⟨hv, ?_⟩
  have hbits := h.2.2
  rw [ofBytes_length, bits_load] at hbits
  rw [hv, ← pack_ofBytes (load b.buf k xs.length), hbits, pack_ofBytes]

theorem remaining_bytes {r : message_t} {b : IBits} {k : ℕ} {xs : List UInt8}
    (h : b.Ahead (8*k) (ofBytes xs)) (hlength : r.messageLength = k+xs.length) :
    remaining r b = xs := by
  rcases ahead_bytes h with ⟨hv, hload⟩
  rw [remaining, hlength, show k+xs.length-b.v = xs.length by omega, hload]

section
variable {C : Type} (convertES : Converter C) (pStack : Memory) {r : message_t}
  {s : RTMPClient C} {data : List UInt8}

theorem handleVideo_avc {iKey iSuffix : ℕ} (hkey : iKey < 16) (hsuffix : iSuffix < 2^32)
    (hlength : r.messageLength = 5+data.length)
    (h : r.oBuffer.Ahead 0 (ofNat 4 iKey ++ (ofNat 4 FLASH_VIDEO_H264 ++
      (ofNat 32 iSuffix ++ ofBytes data)))) :
    handleVideo convertES pStack r s =
      if data.length < 2 then .ok s
      else if iSuffix = 0 then do
        let v ← setVideoExtra pStack s.toVideoStream data
        return s.setVideo v
      else
        let iTime := int32 (r.timestamp*90)
        let pPckt := videoPacket s.toVideoStream iKey iSuffix iTime
          ((MediaPacket.new .media .video r.messageLength).pushed data)
        (s.setVideo (s.toVideoStream.timed iTime)).queue convertES s.bVideoMov pPckt pPckt.key := by
  rcases IBits.read_field h (by decide) hkey with ⟨hval₁, h₁⟩
  rcases IBits.read_field h₁ (by decide) (by decide) with ⟨hval₂, h₂⟩
  rcases IBits.read_field h₂ (by decide) hsuffix with ⟨hval₃, h₃⟩
  have hrest : remaining r (((r.oBuffer.read 4).2.read 4).2.read 32).2 = data :=
    remaining_bytes (k := 5) h₃ hlength
  have hv : (((r.oBuffer.read 4).2.read 4).2.read 32).2.v = 5 := (ahead_bytes (k := 5) h₃).1
  have hnew := new_push_back .media .video r.messageLength data (by omega)
  rw [handleVideo]
  simp only [hval₂, FLASH_VIDEO_H264, videoCodec, hval₃, hv, hrest, hval₁, hlength]
  by_cases hshort : data.length < 2
  · rw [if_pos (by omega), if_pos hshort]
    rfl
  · rw [if_neg (by omega), if_neg hshort]
    by_cases hzero : iSuffix = 0
    · rw [if_pos ⟨trivial, hzero⟩, if_pos hzero]
    · rw [if_neg fun hboth => hzero hboth.2, if_neg hzero]
      have hkeep : keepVP6 .avc s.pVideoDesc data = s.pVideoDesc :=
        if_neg fun hboth => by cases hboth.2
      rw [hkeep, ← hlength, hnew]
      rfl

theorem handleAudio_aac {iFlags iSuffix : ℕ} (hsuffix : iSuffix < 2^8)
    (hlength : r.messageLength = 2+data.length)
    (h : r.oBuffer.Ahead 0 (ofNat 4 FLASH_AUDIO_AAC ++ (ofNat 4 iFlags ++
      (ofNat 8 iSuffix ++ ofBytes data)))) :
    handleAudio convertES r s =
      if iSuffix = 0 then do
        let a ← setAudioExtra s.toAudioStream data
        return s.setAudio a
      else
        let iTime := int32 (r.timestamp*90)
        (s.setAudio (s.toAudioStream.timed iTime)).queue convertES s.bAudioMov
          (audioPacket s.toAudioStream iTime
            ((MediaPacket.new .media .audio r.messageLength).pushed data)) false := by
  rcases IBits.read_field h (by decide) (by decide) with ⟨hval₁, h₁⟩
  rcases IBits.read_masked h₁ (by decide) with ⟨-, h₂⟩
  rcases IBits.read_field h₂ (by decide) hsuffix with ⟨hval₃, h₃⟩
  have hrest : remaining r (((r.oBuffer.read 4).2.read 4).2.read 8).2 = data :=
    remaining_bytes (k := 2) h₃ hlength
  have hnew := new_push_back .media .audio r.messageLength data (by omega)
  have hcodec : audioCodec (r.oBuffer.read 4).1 = some (.mp4a, 8) := by
    rw [hval₁]
    rfl
  rw [handleAudio, if_neg (by omega)]
  simp only [hcodec, hval₃, hrest]
  by_cases hzero : iSuffix = 0
  · rw [if_pos ⟨trivial, hzero⟩, if_pos hzero]
  · rw [if_neg fun hboth => hzero hboth.2, if_neg hzero, hnew]
    rfl

theorem handleAudio_mp3 {iFlags : ℕ} (hlength : r.messageLength = 1+data.length)
    (h : r.oBuffer.Ahead 0 (ofNat 4 FLASH_AUDIO_MP3 ++ (ofNat 4 iFlags ++ ofBytes data))) :
    handleAudio convertES r s =
      let iTime := int32 (r.timestamp*90)
      (s.setAudio (s.toAudioStream.timed iTime)).queue convertES s.bAudioMov
        (audioPacket s.toAudioStream iTime
          ((MediaPacket.new .media .audio r.messageLength).pushed data)) false := by
  rcases IBits.read_field h (by decide) (by decide) with ⟨hval₁, h₁⟩
  rcases IBits.read_masked h₁ (by decide) with ⟨-, h₂⟩
  have hrest : remaining r (((r.oBuffer.read 4).2.read 4).2.read 0).2 = data :=
    remaining_bytes (k := 1) h₂ hlength
  have hnew := new_push_back .media .audio r.messageLength data (by omega)
  have hcodec : audioCodec (r.oBuffer.read 4).1 = some (.mp1a, 0) := by
    rw [hval₁]
    rfl
  rw [handleAudio, if_neg (by omega)]
  simp only [hcodec, hrest, hnew]
  rw [if_neg fun hboth => by cases hboth.1]
  rfl

/-! ## One message -/

/-- The time of a frame as a client counts it. -/
def time (p : MediaPacket) : ℤ := 90*p.dts.tdiv 90

structure VideoProduced (f p : MediaPacket) : Prop where
  content : p.content = .video
  bytes : p.bytes = f.bytes
  key : p.key = f.key
  dts : p.dts = time f
  pts : p.pts-p.dts = 90*((f.pts-f.dts)/90)

structure AudioProduced (f p : MediaPacket) : Prop where
  content : p.content = .audio
  bytes : p.bytes = f.bytes
  dts : p.dts = time f

variable {m : Message} {f : MediaPacket} {codec : CodecType}

/-- The division rounds towards zero. -/
theorem tdiv_near (x : ℤ) : (0 ≤ x → 0 ≤ 90*x.tdiv 90 ∧ 90*x.tdiv 90 ≤ x) ∧
    (x ≤ 0 → x ≤ 90*x.tdiv 90 ∧ 90*x.tdiv 90 ≤ 0 ∧ 90*x.tdiv 90 ≤ x+89) := by
  constructor
  · intro h
    rw [Int.tdiv_eq_ediv_of_nonneg h]
    omega
  · intro h
    have hneg : x.tdiv 90 = -((-x).tdiv 90) := by rw [Int.neg_tdiv, neg_neg]
    rw [hneg, Int.tdiv_eq_ediv_of_nonneg (by omega)]
    omega

theorem timed_descriptor (v : VideoStream) (iTime : ℤ) :
    (v.timed iTime).pVideoDesc.toMediaDescriptor = v.pVideoDesc.toMediaDescriptor := by
  unfold VideoStream.timed
  by_cases hlast : 0 < v.iLastVideoDts
  · simp only [if_pos hlast]
  · simp only [if_neg hlast]

theorem time_range {p : MediaPacket} (hlow : -2^31 ≤ p.dts) (hhigh : p.dts < 2^31) :
    int32 (p.dts.tdiv 90*90) = time p := by
  have hnear := tdiv_near p.dts
  rw [time, mul_comm]
  apply int32_of_range
  · omega
  · omega

theorem payload_length {n k : ℕ} {xs : List Bool} {ys : List UInt8} {bytes : List UInt8}
    (h : ofBytes bytes = xs ++ ofBytes ys) (hn : xs.length = 8*k) (hlength : n = bytes.length) :
    n = k+ys.length := by
  have hl := congrArg List.length h
  rw [List.length_append, ofBytes_length, ofBytes_length, hn] at hl
  omega

theorem queue_push {bMov : Bool} {p : MediaPacket} {bAdd : Bool}
    (h : s.bAnnexB = true → bMov = false) :
    s.queue convertES bMov p bAdd = .ok (s.push p) := by
  rw [RTMPClient.queue, if_neg]
  intro hboth
  rw [h hboth.1] at hboth
  cases hboth.2

theorem videoPacket_produced (hframe : VideoFrame f) (v : VideoStream) {iKey n : ℕ}
    (hkey : iKey = FLASH_VIDEO_KEY_FRAME ↔ f.key = true) (hcodec : v.pVideoDesc.codec = .avc)
    (hlast : time f ≠ v.iLastVideoDts) :
    VideoProduced f (videoPacket v iKey (2^24+composition f) (time f)
      ((MediaPacket.new .media .video n).pushed f.bytes)) := by
  have hdts : (v.timed (time f)).iLastVideoDts = time f := if_neg hlast
  have hdesc : (v.timed (time f)).pVideoDesc.codec = .avc := by rw [timed_descriptor, hcodec]
  have hnear := tdiv_near f.dts
  have hcts := composition_lt hframe
  have horder := hframe.order
  have hlow := hframe.low
  have hhigh := hframe.high
  have hclose := hframe.close
  have hpts : int32 (time f+(composition f : ℕ)*90) = time f+(composition f : ℕ)*90 := by
    rw [composition] at hcts ⊢
    rw [time]
    apply int32_of_range
    · omega
    · omega
  constructor
  · rfl
  · simp [videoPacket]
  · simp only [videoPacket]
    rw [Bool.eq_iff_iff, decide_eq_true_eq]
    exact hkey
  · exact hdts
  · simp only [videoPacket]
    rw [if_pos hdesc, hdts, show (2^24+composition f)%2^24 = composition f by omega, hpts,
      composition]
    omega

theorem handleVideo_frame (hframe : VideoFrame f) (htag : VideoTag f m) (h : Delivers m r)
    (hcodec : s.pVideoDesc.codec = .avc) (hlast : time f ≠ s.iLastVideoDts)
    (hkeep : s.bAnnexB = true → s.bVideoMov = false) :
    ∃ p, handleVideo convertES pStack r s =
      .ok ((s.setVideo (s.toVideoStream.timed (time f))).push p) ∧ VideoProduced f p := by
  rcases htag.payload with ⟨iKey, hlt, hkey, hpayload⟩
  have hcts := composition_lt hframe
  have hstart := h.start
  rw [hpayload] at hstart
  have hlength : r.messageLength = 5+f.bytes.length := by
    rw [← List.append_assoc, ← List.append_assoc] at hpayload
    exact payload_length hpayload (by simp) h.length
  have hsize := hframe.size
  have hrange := time_range hframe.low (by
    have := hframe.order
    have := hframe.high
    omega)
  refine ⟨videoPacket s.toVideoStream iKey (2^24+composition f) (time f)
    ((MediaPacket.new .media .video r.messageLength).pushed f.bytes), ?_,
    videoPacket_produced hframe _ hkey hcodec hlast⟩
  rw [handleVideo_avc convertES pStack hlt (by omega) hlength hstart,
    if_neg (by rw [MediaPacket.size] at hsize; omega), if_neg (by omega)]
  simp only [h.time, htag.time, hrange]
  exact queue_push convertES hkeep

theorem handleVideo_extra {extra : List UInt8} {v : VideoStream} (hconfig : VideoConfig extra m)
    (h : Delivers m r) (hsize : 2 ≤ extra.length)
    (hset : setVideoExtra pStack s.toVideoStream extra = .ok v) :
    handleVideo convertES pStack r s = .ok (s.setVideo v) := by
  rcases hconfig.payload with ⟨iKey, hlt, hpayload⟩
  have hstart := h.start
  rw [hpayload] at hstart
  have hlength : r.messageLength = 5+extra.length := by
    rw [← List.append_assoc, ← List.append_assoc] at hpayload
    exact payload_length hpayload (by simp) h.length
  rw [handleVideo_avc convertES pStack hlt (by decide) hlength hstart, if_neg (by omega),
    if_pos rfl, hset]
  rfl

theorem handleAudio_frame (hcodec : codec = .mp4a ∨ codec = .mp1a) (hframe : AudioFrame codec f)
    (htag : AudioTag codec f m) (h : Delivers m r)
    (hkeep : s.bAnnexB = true → s.bAudioMov = false) :
    ∃ p, handleAudio convertES r s =
      .ok ((s.setAudio (s.toAudioStream.timed (time f))).push p) ∧ AudioProduced f p := by
  rcases htag.payload with ⟨iFlags, hpayload⟩
  have hstart := h.start
  rw [hpayload] at hstart
  have hrange := time_range hframe.low hframe.high
  have hproduced : AudioProduced f (audioPacket s.toAudioStream (time f)
      ((MediaPacket.new .media .audio r.messageLength).pushed f.bytes)) :=
    ⟨rfl, by simp [audioPacket], rfl⟩
  refine ⟨_, ?_, hproduced⟩
  rcases hcodec with rfl | rfl
  · rw [audioSuffix, if_pos rfl] at hpayload hstart
    have hlength : r.messageLength = 2+f.bytes.length := by
      rw [← List.append_assoc, ← List.append_assoc] at hpayload
      exact payload_length hpayload (by simp) h.length
    rw [handleAudio_aac convertES (by decide) hlength hstart, if_neg (by decide)]
    simp only [h.time, htag.time, hrange]
    exact queue_push convertES hkeep
  · rw [audioSuffix, if_neg (by decide), List.nil_append] at hpayload hstart
    have hlength : r.messageLength = 1+f.bytes.length := by
      rw [← List.append_assoc] at hpayload
      exact payload_length hpayload (by simp) h.length
    rw [handleAudio_mp3 convertES hlength hstart]
    simp only [h.time, htag.time, hrange]
    exact queue_push convertES hkeep

theorem handleAudio_extra {extra : List UInt8} {a : AudioStream} (hconfig : AudioConfig extra m)
    (h : Delivers m r) (hset : setAudioExtra s.toAudioStream extra = .ok a) :
    handleAudio convertES r s = .ok (s.setAudio a) := by
  rcases hconfig.payload with ⟨iFlags, hpayload⟩
  have hstart := h.start
  rw [hpayload] at hstart
  have hlength : r.messageLength = 2+extra.length := by
    rw [← List.append_assoc, ← List.append_assoc] at hpayload
    exact payload_length hpayload (by simp) h.length
  rw [handleAudio_aac convertES (by decide) hlength hstart, if_pos rfl, hset]
  rfl

end

/-! ## Extra data -/

section
variable {pStack : Memory} {extra : List UInt8}

theorem sized_kept (d : Descriptor) (iWidth iHeight : ℕ) :
    (d.sized iWidth iHeight).extra_data = d.extra_data ∧
      (d.sized iWidth iHeight).codec = d.codec := by
  by_cases hunknown : d.height = 0 ∧ d.width = 0
  · simp only [Descriptor.sized, if_pos hunknown, and_self]
  · simp only [Descriptor.sized, if_neg hunknown, and_self]

theorem avcc2meta_kept {d e : Descriptor} (h : AVCC2META pStack d = .ok e) :
    e.extra_data = d.extra_data ∧ e.codec = d.codec := by
  simp only [AVCC2META] at h
  split at h
  · cases h
  · rcases hparse : H264.H264_parse_SPS pStack _ _ H264.NAL_t.zero with e' | nal
    · rw [hparse] at h
      cases h
    · rw [hparse] at h
      obtain rfl := Except.ok.inj h
      exact sized_kept _ _ _

theorem esds2meta_kept {d e : Descriptor} (h : ESDS2META d = .ok e) :
    e.extra_data = d.extra_data := by
  rw [ESDS2META] at h
  split at h
  · cases h
  · simp only at h
    rcases hchannels : mp4aChannels (((d.extra.read 5).2.read 4).2.read 4).1 with e' | channels
    · rw [hchannels] at h
      cases h
    · rw [hchannels] at h
      obtain rfl := Except.ok.inj h
      rfl

theorem setExtraData_kept {d e : Descriptor} (h : d.setExtraData extra = .ok e) :
    e.extra_data = extra ∧ e.codec = d.codec := by
  rw [Descriptor.setExtraData] at h
  split at h
  · cases h
  · obtain rfl := Except.ok.inj h
    exact ⟨rfl, rfl⟩

/-- What a stream looks like once it has taken the extra data. -/
structure VideoTaken (extra : List UInt8) (v w : VideoStream) : Prop where
  mov : w.bVideoMov = v.bVideoMov
  last : w.iLastVideoDts = v.iLastVideoDts
  codec : w.pVideoDesc.codec = v.pVideoDesc.codec
  extra : w.pVideoDesc.extra_data = extra

theorem setVideoExtra_taken {v w : VideoStream} (h : setVideoExtra pStack v extra = .ok w)
    (hold : v.pVideoDesc.extra_data = [] ∨ v.pVideoDesc.extra_data = extra) :
    VideoTaken extra v w := by
  rw [setVideoExtra] at h
  split at h
  · rcases hset : v.pVideoDesc.setExtraData extra with e | d
    · rw [hset] at h
      cases h
    · rw [hset] at h
      simp only [bind, Except.bind] at h
      rcases hmeta : AVCC2META pStack d with e | d'
      · rw [hmeta] at h
        cases h
      · rw [hmeta] at h
        obtain rfl := Except.ok.inj h
        have hkept := setExtraData_kept hset
        have hkept' := avcc2meta_kept hmeta
        exact ⟨rfl, rfl, hkept'.2.trans hkept.2, hkept'.1.trans hkept.1⟩
  case isFalse hsize =>
    obtain rfl := Except.ok.inj h
    refine ⟨rfl, rfl, rfl, hold.resolve_left fun hempty => hsize ?_⟩
    rw [Descriptor.getExtraSize, hempty, List.length_nil]

structure AudioTaken (extra : List UInt8) (a b : AudioStream) : Prop where
  mov : b.bAudioMov = a.bAudioMov
  extra : b.pAudioDesc.extra_data = extra

theorem setAudioExtra_taken {a b : AudioStream} (h : setAudioExtra a extra = .ok b)
    (hold : a.pAudioDesc.extra_data = [] ∨ a.pAudioDesc.extra_data = extra) :
    AudioTaken extra a b := by
  rw [setAudioExtra] at h
  split at h
  · rcases hset : a.pAudioDesc.setExtraData extra with e | d
    · rw [hset] at h
      cases h
    · rw [hset] at h
      simp only [bind, Except.bind] at h
      rcases hmeta : ESDS2META d with e | d'
      · rw [hmeta] at h
        cases h
      · rw [hmeta] at h
        obtain rfl := Except.ok.inj h
        exact ⟨rfl, (esds2meta_kept hmeta).trans (setExtraData_kept hset).1⟩
  case isFalse hsize =>
    obtain rfl := Except.ok.inj h
    refine ⟨rfl, hold.resolve_left fun hempty => hsize ?_⟩
    rw [Descriptor.getExtraSize, hempty, List.length_nil]

end

/-! ## Streams -/

/-- What a packetizer makes a message of. -/
inductive Item
  | extra (data : List UInt8)
  | frame (p : MediaPacket)

def frames : List Item → List MediaPacket
  | [] => []
  | .extra _::items => frames items
  | .frame p::items => p::frames items

def VideoItem : Item → Message → Prop
  | .extra data, m => VideoConfig data m
  | .frame p, m => VideoTag p m

def AudioItem (codec : CodecType) : Item → Message → Prop
  | .extra data, m => AudioConfig data m
  | .frame p, m => AudioTag codec p m

/-- The items take a stream from `v` to `w`, and the client takes each of them. -/
def VideoPath (pStack : Memory) (bAnnexB : Bool) : List Item → VideoStream → VideoStream → Prop
  | [], v, w => w = v
  | .extra data::items, v, w => 2 ≤ data.length ∧
      ∃ u, setVideoExtra pStack v data = .ok u ∧ VideoPath pStack bAnnexB items u w
  | .frame p::items, v, w => VideoFrame p ∧ v.pVideoDesc.codec = .avc ∧
      time p ≠ v.iLastVideoDts ∧ (bAnnexB = true → v.bVideoMov = false) ∧
      VideoPath pStack bAnnexB items (v.timed (time p)) w

def AudioPath (codec : CodecType) (bAnnexB : Bool) : List Item → AudioStream → AudioStream → Prop
  | [], a, b => b = a
  | .extra data::items, a, b =>
      ∃ c, setAudioExtra a data = .ok c ∧ AudioPath codec bAnnexB items c b
  | .frame p::items, a, b => AudioFrame codec p ∧ (bAnnexB = true → a.bAudioMov = false) ∧
      AudioPath codec bAnnexB items (a.timed (time p)) b

def isVideo (r : message_t) : Bool := r.messageTypeId = 9

def isAudio (r : message_t) : Bool := r.messageTypeId = 8

/-- A message of a stream as the client is given it. -/
def Arrives (Carries : Item → Message → Prop) (i : Item) (r : message_t) : Prop :=
  ∃ m, Carries i m ∧ Delivers m r

def videoOf (ps : List MediaPacket) : List MediaPacket := ps.filter fun p => p.content = .video

def audioOf (ps : List MediaPacket) : List MediaPacket := ps.filter fun p => p.content = .audio

section
variable {C : Type} (convertES : Converter C) (pStack : Memory) {codec : CodecType}

theorem handle_video {s : RTMPClient C} {i : Item} {items : List Item} {r : message_t}
    {w : VideoStream} (hr : isVideo r = true) (harrives : Arrives VideoItem i r)
    (hpath : VideoPath pStack s.bAnnexB (i::items) s.toVideoStream w) :
    ∃ v ps, handle convertES pStack s r = .ok { s.setVideo v with mBuffer := s.mBuffer ++ ps } ∧
      VideoPath pStack s.bAnnexB items v w ∧
      ∀ fs qs, List.Forall₂ VideoProduced fs (videoOf qs) →
        List.Forall₂ VideoProduced (frames [i] ++ fs) (videoOf (ps ++ qs)) ∧
          audioOf (ps ++ qs) = audioOf qs := by
  rcases harrives with ⟨m, hitem, hdelivers⟩
  rw [isVideo, decide_eq_true_eq] at hr
  rw [handle, if_pos hr]
  cases i with
  | extra data =>
    rcases hpath with ⟨hsize, v, hset, hpath⟩
    refine ⟨v, [], ?_, hpath, fun fs qs hall => ⟨hall, rfl⟩⟩
    rw [handleVideo_extra convertES pStack hitem hdelivers hsize hset, List.append_nil]
    rfl
  | frame f =>
    rcases hpath with ⟨hframe, hcodec, hlast, hkeep, hpath⟩
    rcases handleVideo_frame convertES pStack hframe hitem hdelivers hcodec hlast hkeep with
      ⟨p, hrun, hproduced⟩
    refine ⟨_, [p], hrun, hpath, ?_⟩
    intro fs qs hall
    have hcontent := hproduced.content
    constructor
    · rw [videoOf, List.singleton_append, List.filter_cons_of_pos (by simp [hcontent])]
      exact List.Forall₂.cons hproduced hall
    · rw [audioOf, List.singleton_append, List.filter_cons_of_neg (by simp [hcontent]), ← audioOf]

theorem handle_audio (hcodec : codec = .mp4a ∨ codec = .mp1a) {s : RTMPClient C} {i : Item}
    {items : List Item} {r : message_t} {b : AudioStream} (hr : isAudio r = true)
    (harrives : Arrives (AudioItem codec) i r)
    (hpath : AudioPath codec s.bAnnexB (i::items) s.toAudioStream b) :
    ∃ a ps, handle convertES pStack s r = .ok { s.setAudio a with mBuffer := s.mBuffer ++ ps } ∧
      AudioPath codec s.bAnnexB items a b ∧
      ∀ fs qs, List.Forall₂ AudioProduced fs (audioOf qs) →
        List.Forall₂ AudioProduced (frames [i] ++ fs) (audioOf (ps ++ qs)) ∧
          videoOf (ps ++ qs) = videoOf qs := by
  rcases harrives with ⟨m, hitem, hdelivers⟩
  rw [isAudio, decide_eq_true_eq] at hr
  rw [handle, if_neg (by rw [hr]; decide), if_pos hr]
  cases i with
  | extra data =>
    rcases hpath with ⟨a, hset, hpath⟩
    refine ⟨a, [], ?_, hpath, fun fs qs hall => ⟨hall, rfl⟩⟩
    rw [handleAudio_extra convertES hitem hdelivers hset, List.append_nil]
    rfl
  | frame f =>
    rcases hpath with ⟨hframe, hkeep, hpath⟩
    rcases handleAudio_frame convertES hcodec hframe hitem hdelivers hkeep with
      ⟨p, hrun, hproduced⟩
    refine ⟨_, [p], hrun, hpath, ?_⟩
    intro fs qs hall
    have hcontent := hproduced.content
    constructor
    · rw [audioOf, List.singleton_append, List.filter_cons_of_pos (by simp [hcontent])]
      exact List.Forall₂.cons hproduced hall
    · rw [videoOf, List.singleton_append, List.filter_cons_of_neg (by simp [hcontent]), ← videoOf]

theorem frames_append (i : Item) (items : List Item) :
    frames (i::items) = frames [i] ++ frames items := by
  cases i <;> rfl

/-- The messages of the two streams in any order. -/
theorem handle_interleaved (hcodec : codec = .mp4a ∨ codec = .mp1a) {rs : List message_t}
    {s : RTMPClient C} {vItems aItems : List Item} {w : VideoStream} {b : AudioStream}
    (hrs : ∀ r ∈ rs, isVideo r = true ∨ isAudio r = true)
    (hvideo : List.Forall₂ (Arrives VideoItem) vItems (rs.filter isVideo))
    (haudio : List.Forall₂ (Arrives (AudioItem codec)) aItems (rs.filter isAudio))
    (hvpath : VideoPath pStack s.bAnnexB vItems s.toVideoStream w)
    (hapath : AudioPath codec s.bAnnexB aItems s.toAudioStream b) :
    ∃ t ps, rs.foldlM (handle convertES pStack) s = .ok t ∧ t.mBuffer = s.mBuffer ++ ps ∧
      t.toVideoStream = w ∧ t.toAudioStream = b ∧
      List.Forall₂ VideoProduced (frames vItems) (videoOf ps) ∧
      List.Forall₂ AudioProduced (frames aItems) (audioOf ps) := by
  induction rs generalizing s vItems aItems with
  | nil =>
    cases hvideo
    cases haudio
    exact ⟨s, [], rfl, (List.append_nil _).symm, hvpath.symm, hapath.symm, List.Forall₂.nil,
      List.Forall₂.nil⟩
  | cons r rs ih =>
    have hrest := fun r' hr' => hrs r' (List.mem_cons_of_mem r hr')
    rcases hrs r List.mem_cons_self with hr | hr
    · have hother : isAudio r = false := by
        rw [isVideo, decide_eq_true_eq] at hr
        rw [isAudio, hr]
        decide
      rw [List.filter_cons_of_pos hr] at hvideo
      rw [List.filter_cons_of_neg (by simp [hother])] at haudio
      cases hvideo with
      | @cons i _ items _ harrives hvideo =>
        rcases handle_video convertES pStack hr harrives hvpath with
          ⟨v, ps, hrun, hvpath, hmore⟩
        rcases ih (s := { s.setVideo v with mBuffer := s.mBuffer ++ ps }) hrest hvideo haudio hvpath
          hapath with ⟨t, qs, hfold, hbuffer, hw, hb, hvs, has⟩
        rcases hmore _ _ hvs with ⟨hvs', hsame⟩
        refine ⟨t, ps ++ qs, ?_, ?_, hw, hb, ?_, ?_⟩
        · rw [List.foldlM_cons, hrun]
          exact hfold
        · rw [hbuffer, List.append_assoc]
        · rw [frames_append]
          exact hvs'
        · rw [hsame]
          exact has
    · have hother : isVideo r = false := by
        rw [isAudio, decide_eq_true_eq] at hr
        rw [isVideo, hr]
        decide
      rw [List.filter_cons_of_pos hr] at haudio
      rw [List.filter_cons_of_neg (by simp [hother])] at hvideo
      cases haudio with
      | @cons i _ items _ harrives haudio =>
        rcases handle_audio convertES pStack hcodec hr harrives hapath with
          ⟨a, ps, hrun, hapath, hmore⟩
        rcases ih (s := { s.setAudio a with mBuffer := s.mBuffer ++ ps }) hrest hvideo haudio hvpath
          hapath with ⟨t, qs, hfold, hbuffer, hw, hb, hvs, has⟩
        rcases hmore _ _ has with ⟨has', hsame⟩
        refine ⟨t, ps ++ qs, ?_, ?_, hw, hb, ?_, ?_⟩
        · rw [List.foldlM_cons, hrun]
          exact hfold
        · rw [hbuffer, List.append_assoc]
        · rw [hsame]
          exact hvs
        · rw [frames_append]
          exact has'

end

/-! ## Single streams -/

/-- A packed message in the buffer of a chunk stream that held nothing before. -/
def received (m : Message) : message_t :=
  { RTMPChunkStream.Message.new ⟨0, 0, 0⟩ with
    messageTypeId := m.iMessageType
    timestamp := m.iTimestamp
    messageLength := m.payload.length
    oBuffer := IBits.new (store zeroed 0 m.payload) (RTMPChunkStream.maxMessageSize+32) }

def relay {C : Type} (convertES : Converter C) (pStack : Memory) (s : RTMPPacketizer)
    (client : RTMPClient C) (ps : List MediaPacket) : Except SirannonException (RTMPClient C) :=
  match (packetize ps).run s with
  | .ok _ t => (t.packed.map received).foldlM (handle convertES pStack) client
  | .error e _ => .error e

def avcExtra : List UInt8 := [1, 66, 0, 30, 255, 225, 0, 8, 0x67, 66, 0, 30, 255, 255, 255, 255]

def exampleDescriptor (content : ContentType) (codec : CodecType) (extra : List UInt8) :
    MediaDescriptor := ⟨content, codec, 0, 0, 0, 44100, 2, extra⟩

def exampleFrame (desc : MediaDescriptor) (dts pts : ℤ) (bytes : List UInt8) : MediaPacket :=
  let p := (MediaPacket.new .media desc.content bytes.length).pushed bytes
  { p with mux := .MOV, codec := desc.codec, desc := some desc, dts := dts, pts := pts, key := true }

def exampleClient : RTMPClient Unit where
  bVideoMov := true
  bVideoMetaData := false
  iVideoUnit := 0
  iVideoStream := 1
  iLastVideoDts := 0
  pVideoDesc := ⟨exampleDescriptor .video .avc [], zeroed, 3600, 100, 0, 0, 0⟩
  bAudioMov := true
  bAudioMetaData := false
  iAudioUnit := 0
  iAudioStream := 2
  iLastAudioDts := 0
  pAudioDesc := ⟨exampleDescriptor .audio .mp4a [], zeroed, 3600, 200, 0, 0, 0⟩
  bAnnexB := false
  oAnnexB := ()
  mBuffer := []

def examplePacketizer : RTMPPacketizer :=
  ⟨OBits.new 1, true, false, 0, 0, -1, 0, 128, 1, 4, [], []⟩

def keepES : Converter Unit := fun oAnnexB pPckt oBuffer _ => .ok (oAnnexB, oBuffer ++ [pPckt])

def relayed (desc : MediaDescriptor) (dts : ℤ) : Except SirannonException (List ℤ) :=
  (relay keepES zeroed examplePacketizer exampleClient [exampleFrame desc dts dts [1, 2, 3]]).map
    fun t => t.mBuffer.map fun p => p.dts

/-! ## Round trip -/

/-- A client that can take the extra data and the first frame of a video stream. -/
structure VideoStart (pStack : Memory) (bAnnexB : Bool) (v : VideoStream) (p : MediaPacket)
    (extra : List UInt8) : Prop where
  desc : p.desc.map (fun desc => desc.extra_data) = some extra
  size : 2 ≤ extra.length
  old : v.pVideoDesc.extra_data = [] ∨ v.pVideoDesc.extra_data = extra
  accepted : ∃ w, setVideoExtra pStack v extra = .ok w
  last : time p ≠ v.iLastVideoDts
  keep : bAnnexB = true → v.bVideoMov = false
  codec : v.pVideoDesc.codec = .avc

/-- A client that can take the extra data and the first frame of an audio stream. -/
structure AudioStart (codec : CodecType) (bAnnexB : Bool) (a : AudioStream) (p : MediaPacket)
    (extra : List UInt8) : Prop where
  desc : p.desc.map (fun desc => desc.extra_data) = some extra
  old : codec = .mp4a → a.pAudioDesc.extra_data = [] ∨ a.pAudioDesc.extra_data = extra
  accepted : codec = .mp4a → ∃ b, setAudioExtra a extra = .ok b
  keep : bAnnexB = true → a.bAudioMov = false

/-- The messages of both packetizers in an order that keeps those of each. -/
structure Delivery (ms ns : List Message) (rs : List message_t) : Prop where
  kinds : ∀ r ∈ rs, isVideo r = true ∨ isAudio r = true
  video : List.Forall₂ Delivers ms (rs.filter isVideo)
  audio : List.Forall₂ Delivers ns (rs.filter isAudio)

theorem arrives_of_delivery {Carries : Item → Message → Prop} {items : List Item}
    {ms : List Message} {rs : List message_t} (hitems : List.Forall₂ Carries items ms)
    (hms : List.Forall₂ Delivers ms rs) : List.Forall₂ (Arrives Carries) items rs := by
  induction hitems generalizing rs with
  | nil =>
    cases hms
    exact List.Forall₂.nil
  | cons hitem _ ih =>
    cases hms with
    | cons hdelivers hms => exact List.Forall₂.cons ⟨_, hitem, hdelivers⟩ (ih hms)

theorem frames_map (ps : List MediaPacket) : frames (ps.map Item.frame) = ps := by
  induction ps with
  | nil => rfl
  | cons p ps ih => rw [List.map_cons, frames, ih]

section
variable {codec : CodecType} {pStack : Memory} {bAnnexB : Bool}

variable (pStack) in
theorem videoPath_frames {ps : List MediaPacket} {v : VideoStream} (hps : ∀ p ∈ ps, VideoFrame p)
    (hchain : ps.IsChain fun p q => p.dts.tdiv 90 < q.dts.tdiv 90)
    (hlast : ∀ p ∈ ps.head?, time p ≠ v.iLastVideoDts)
    (hkeep : bAnnexB = true → v.bVideoMov = false) (hcodec : v.pVideoDesc.codec = .avc) :
    ∃ w, VideoPath pStack bAnnexB (ps.map Item.frame) v w ∧
      w.pVideoDesc.extra_data = v.pVideoDesc.extra_data := by
  induction ps generalizing v with
  | nil => exact ⟨v, rfl, rfl⟩
  | cons p ps ih =>
    have hp := hlast p rfl
    have hnext : ∀ q ∈ ps.head?, time q ≠ (v.timed (time p)).iLastVideoDts := by
      intro q hq
      have hless := (List.isChain_cons.mp hchain).1 q hq
      rw [show (v.timed (time p)).iLastVideoDts = time p from if_neg hp, time, time]
      omega
    have hdesc := timed_descriptor v (time p)
    rcases ih (v := v.timed (time p)) (fun q hq => hps q (List.mem_cons_of_mem p hq))
      (List.isChain_cons.mp hchain).2 hnext hkeep (by rw [hdesc, hcodec]) with ⟨w, hpath, hextra⟩
    exact ⟨w, ⟨hps p List.mem_cons_self, hcodec, hp, hkeep, hpath⟩, by rw [hextra, hdesc]⟩

theorem audioTimed_extra (a : AudioStream) (iTime : ℤ) :
    (a.timed iTime).pAudioDesc.extra_data = a.pAudioDesc.extra_data := by
  show (a.pAudioDesc.stepped iTime a.iLastAudioDts).framed.extra_data = _
  by_cases hlast : 0 < a.iLastAudioDts
  · simp only [Descriptor.stepped, if_pos hlast, Descriptor.framed]
    split <;> rfl
  · simp only [Descriptor.stepped, if_neg hlast, Descriptor.framed]
    split <;> rfl

theorem audioPath_frames {ps : List MediaPacket} {a : AudioStream}
    (hps : ∀ p ∈ ps, AudioFrame codec p) (hkeep : bAnnexB = true → a.bAudioMov = false) :
    ∃ b, AudioPath codec bAnnexB (ps.map Item.frame) a b ∧
      b.pAudioDesc.extra_data = a.pAudioDesc.extra_data := by
  induction ps generalizing a with
  | nil => exact ⟨a, rfl, rfl⟩
  | cons p ps ih =>
    rcases ih (a := a.timed (time p)) (fun q hq => hps q (List.mem_cons_of_mem p hq)) hkeep with
      ⟨b, hpath, hextra⟩
    exact ⟨b, ⟨hps p List.mem_cons_self, hkeep, hpath⟩, by rw [hextra, audioTimed_extra]⟩

theorem desc_of_extra {p : MediaPacket} {extra : List UInt8}
    (h : p.desc.map (fun desc => desc.extra_data) = some extra) :
    ∃ desc, p.desc = some desc ∧ desc.extra_data = extra := by
  rw [Option.map_eq_some_iff] at h
  exact h

/-- What a stream of frames is packed into and what it does to a client. -/
structure VideoSent (pStack : Memory) (bAnnexB : Bool) (v : VideoStream) (ps : List MediaPacket)
    (extra : List UInt8) (ms : List Message) (items : List Item) (w : VideoStream) : Prop where
  messages : List.Forall₂ VideoItem items ms
  path : VideoPath pStack bAnnexB items v w
  frames : frames items = ps
  extra : ps ≠ [] → w.pVideoDesc.extra_data = extra

theorem video_sent {ps : List MediaPacket} {v : VideoStream} {s : RTMPPacketizer}
    {extra : List UInt8} (hps : ∀ p ∈ ps, VideoFrame p)
    (hchain : ps.IsChain fun p q => p.dts.tdiv 90 < q.dts.tdiv 90)
    (hstart : ∀ p ∈ ps.head?, VideoStart pStack bAnnexB v p extra) (hs : Working VideoFlag s)
    (hreset : s.bReset = true) (hpacked : s.packed = []) :
    ∃ u items w, (packetize ps).run s = .ok () u ∧
      VideoSent pStack bAnnexB v ps extra u.packed items w := by
  cases ps with
  | nil =>
    refine ⟨s, [], v, rfl, ?_, rfl, rfl, fun hne => absurd rfl hne⟩
    rw [hpacked]
    exact List.Forall₂.nil
  | cons p ps =>
    have hp := hstart p rfl
    rcases desc_of_extra hp.desc with ⟨desc, hdesc, rfl⟩
    rcases packetize_video hps hdesc hs hreset with ⟨u, m, ms, hrun, hmore, hconfig, htags⟩
    rcases hp.accepted with ⟨v', hset⟩
    have htaken := setVideoExtra_taken hset hp.old
    rcases videoPath_frames pStack (v := v') hps hchain (by
      intro q hq
      obtain rfl := Option.some.inj hq
      rw [htaken.last]
      exact hp.last) (fun h => htaken.mov.trans (hp.keep h)) (htaken.codec.trans hp.codec) with
      ⟨w, hpath, hextra⟩
    refine ⟨u, .extra desc.extra_data::(p::ps).map Item.frame, w, hrun, ?_,
      ⟨hp.size, v', hset, hpath⟩, frames_map _, fun _ => hextra.trans htaken.extra⟩
    rw [hmore, hpacked, List.nil_append]
    exact List.Forall₂.cons hconfig (List.forall₂_map_left_iff.mpr htags)

structure AudioSent (codec : CodecType) (bAnnexB : Bool) (a : AudioStream) (ps : List MediaPacket)
    (extra : List UInt8) (ms : List Message) (items : List Item) (b : AudioStream) : Prop where
  messages : List.Forall₂ (AudioItem codec) items ms
  path : AudioPath codec bAnnexB items a b
  frames : frames items = ps
  extra : codec = .mp4a → ps ≠ [] → b.pAudioDesc.extra_data = extra

theorem audio_sent (hcodec : codec = .mp4a ∨ codec = .mp1a) {ps : List MediaPacket}
    {a : AudioStream} {s : RTMPPacketizer} {extra : List UInt8}
    (hps : ∀ p ∈ ps, AudioFrame codec p)
    (hstart : ∀ p ∈ ps.head?, AudioStart codec bAnnexB a p extra)
    (hs : Working (AudioFlag codec) s) (hreset : s.bReset = true) (hpacked : s.packed = []) :
    ∃ u items b, (packetize ps).run s = .ok () u ∧
      AudioSent codec bAnnexB a ps extra u.packed items b := by
  cases ps with
  | nil =>
    refine ⟨s, [], a, rfl, ?_, rfl, rfl, fun _ hne => absurd rfl hne⟩
    rw [hpacked]
    exact List.Forall₂.nil
  | cons p ps =>
    have hp := hstart p rfl
    rcases desc_of_extra hp.desc with ⟨desc, hdesc, rfl⟩
    rcases hcodec with rfl | rfl
    · rcases packetize_aac hps hdesc hs hreset with ⟨u, m, ms, hrun, hmore, hconfig, htags⟩
      rcases hp.accepted rfl with ⟨a', hset⟩
      have htaken := setAudioExtra_taken hset (hp.old rfl)
      rcases audioPath_frames (a := a') hps (fun h => htaken.mov.trans (hp.keep h)) with
        ⟨b, hpath, hextra⟩
      refine ⟨u, .extra desc.extra_data::(p::ps).map Item.frame, b, hrun, ?_, ⟨a', hset, hpath⟩,
        frames_map _, fun _ _ => hextra.trans htaken.extra⟩
      rw [hmore, hpacked, List.nil_append]
      exact List.Forall₂.cons hconfig (List.forall₂_map_left_iff.mpr htags)
    · rcases packetize_sounds (Or.inr rfl) hps hs (fun h => by cases h) with
        ⟨u, ms, hrun, hmore, htags⟩
      rcases audioPath_frames hps hp.keep with ⟨b, hpath, hextra⟩
      refine ⟨u, (p::ps).map Item.frame, b, hrun, ?_, hpath, frames_map _,
        fun h => absurd h (by decide)⟩
      rw [hmore, hpacked, List.nil_append]
      exact List.forall₂_map_left_iff.mpr htags

end

theorem init_working {iChunkSize iStreamID iChunkID : ℤ} {s : RTMPPacketizer}
    (h : RTMPPacketizer.init iChunkSize iStreamID iChunkID = .ok s) (hsize : 1 ≤ iChunkSize)
    (P : ℕ → Prop) : Working P s ∧ s.bReset = true ∧ s.packed = [] := by
  rw [RTMPPacketizer.init] at h
  split at h
  · cases h
  · obtain rfl := Except.ok.inj h
    exact ⟨⟨hsize, Or.inl rfl⟩, rfl, rfl⟩

theorem exampleExtra_taken :
    ∃ w, setVideoExtra zeroed exampleClient.toVideoStream avcExtra = .ok w := by
  have hok : (setVideoExtra zeroed exampleClient.toVideoStream avcExtra).isOk = true := by
    decide +kernel
  cases hset : setVideoExtra zeroed exampleClient.toVideoStream avcExtra with
  | error e =>
    rw [hset] at hok
    cases hok
  | ok w => exact ⟨w, rfl⟩

end Sirannon.RTMPTag
