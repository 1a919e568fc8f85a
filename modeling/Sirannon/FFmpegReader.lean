import Sirannon.MediaPacket
import Sirannon.Rescale

/-!
# Reading a container through its demuxer

A packet of the demuxer is converted into packets of one frame. Its decoding
time is moved behind that of the last frame of its stream, and frames from the
maximum on are discarded. The file is closed when it has been played often
enough, or when both streams have passed the maximum.
-/

set_option autoImplicit false

namespace Sirannon.FFmpegReading
open Media Bits Rescale

def TIMESTAMP_MIN : ℤ := 90000

def oTimeBase : AVRational := ⟨1, 90000⟩

structure StreamDescriptor extends MediaDescriptor where
  inc : ℤ
  route : ℤ
  deriving DecidableEq, Repr

/-- A packet of the demuxer with what the frame parser of its stream makes of the data. -/
structure AVPacket where
  stream_index : ℤ
  dts : ℤ
  pts : ℤ
  bKey : Bool
  vConverted : List MediaPacket
  deriving DecidableEq, Repr

/-- The fields of the reader that there are for video and for audio; a stream that is not there
has the number -1. -/
structure Track where
  iStream : ℤ
  scale : AVRational
  mux : ℤ
  pDesc : StreamDescriptor
  iOldDts : ℤ
  iFrame : ℤ
  deriving DecidableEq, Repr

/-- A frame that has been read, with its repaired decoding time. -/
structure Frame where
  bVideo : Bool
  dts : ℤ
  size : ℕ
  deriving DecidableEq, Repr

/-- `vAhead` is what the demuxer has left of the packets of the file. All frames that have been
read are in `vFrames`, and what is routed is in `vRouted`. -/
structure FFmpegReader where
  vFile : List AVPacket
  vAhead : List AVPacket
  video : Track
  audio : Track
  bMovFrameStructure : Bool
  iUnit : ℤ
  iOldDts : ℤ
  iMaxDts : ℤ
  bMaxDurationReached : Bool
  loop : ℤ
  iLoop : ℤ
  bSchedule : Bool
  vFrames : List Frame
  vRouted : List MediaPacket

def content (bVideo : Bool) : ContentType := if bVideo then .video else .audio

namespace FFmpegReader

def track (r : FFmpegReader) (bVideo : Bool) : Track := if bVideo then r.video else r.audio

def setTrack (r : FFmpegReader) (bVideo : Bool) (t : Track) : FFmpegReader :=
  if bVideo then { r with video := t } else { r with audio := t }

def mux (r : FFmpegReader) : MuxType := if r.bMovFrameStructure then .MOV else .ES

/-! ## End and reset -/

def ctrlPacket (r : FFmpegReader) (type : PacketType) : MediaPacket :=
  { MediaPacket.new type .mixed 0 with
    dts := r.iOldDts
    pts := r.iOldDts
    subframenumber := 0
    framestart := true
    frameend := true
    codec := .NO
    mux := r.mux }

/-- The packet for one of the streams, if it is there. -/
def routeCtrl (r : FFmpegReader) (bVideo : Bool) (pPckt : MediaPacket) : FFmpegReader :=
  let t := r.track bVideo
  if t.iStream = -1 then r
  else
    { r with
      iUnit := r.iUnit+1
      vRouted := r.vRouted ++ [{ pPckt with
        content := content bVideo
        xroute := t.pDesc.route
        unitnumber := r.iUnit
        xstream := t.mux
        desc := some t.pDesc.toMediaDescriptor
        codec := t.pDesc.codec
        framenumber := t.iFrame
        inc := t.pDesc.inc }] }

def countAudio (r : FFmpegReader) : FFmpegReader :=
  { r with audio := { r.audio with iFrame := r.audio.iFrame+1 } }

/-- Only the frames of the audio are counted on. -/
def parse_ctrl (r : FFmpegReader) (type : PacketType) : FFmpegReader :=
  let pPckt := r.ctrlPacket type
  let r := (r.routeCtrl true pPckt).routeCtrl false pPckt
  if r.audio.iStream = -1 then r else r.countAudio

def parseEnd (r : FFmpegReader) : FFmpegReader := { r.parse_ctrl .end with bSchedule := false }

/-! ## A packet of the demuxer -/

/-- Packet `i` of the frame. -/
def stamp (r : FFmpegReader) (bVideo : Bool) (iDts iPts : ℤ) (p : AVPacket) (i : ℕ)
    (pPckt : MediaPacket) : MediaPacket :=
  let t := r.track bVideo
  { pPckt with
    content := content bVideo
    xroute := t.pDesc.route
    codec := t.pDesc.codec
    xstream := t.mux
    desc := some t.pDesc.toMediaDescriptor
    framenumber := t.iFrame
    framestart := decide (i = 0)
    frameend := decide (i+1 = p.vConverted.length)
    unitnumber := r.iUnit+i
    subframenumber := i
    dts := iDts
    pts := iPts
    inc := t.pDesc.inc
    mux := r.mux
    key := pPckt.key || p.bKey }

def routeFrame (r : FFmpegReader) (bVideo : Bool) (iDts iPts : ℤ) (p : AVPacket) : FFmpegReader :=
  { r with
    iOldDts := iDts
    iUnit := r.iUnit+p.vConverted.length
    vRouted := r.vRouted ++ p.vConverted.mapIdx (r.stamp bVideo iDts iPts p) }

def Beyond (r : FFmpegReader) (iDts : ℤ) : Prop := 0 < r.iMaxDts ∧ r.iMaxDts ≤ iDts

instance (r : FFmpegReader) (iDts : ℤ) : Decidable (r.Beyond iDts) :=
  inferInstanceAs (Decidable (_ ∧ _))

def reach (r : FFmpegReader) (bVideo : Bool) (iDts : ℤ) : FFmpegReader :=
  if r.Beyond iDts ∧ bVideo = true then { r with bMaxDurationReached := true } else r

/-- Once the video has reached the maximum. -/
def settle (r : FFmpegReader) (bVideo : Bool) (iDts iPts : ℤ) (p : AVPacket) :
    Bool × FFmpegReader :=
  if r.bMaxDurationReached = true then
    if r.audio.iStream < 0 then (false, { r with iOldDts := r.iMaxDts }.parseEnd)
    else if bVideo = false ∧ r.iMaxDts ≤ iDts then
      (false, { r with iOldDts := r.iMaxDts }.parseEnd)
    else if bVideo = true then (false, r)
    else (true, r.routeFrame bVideo iDts iPts p)
  else (true, r.routeFrame bVideo iDts iPts p)

/-- Max duration? The result is whether the step goes on. -/
def place (r : FFmpegReader) (bVideo : Bool) (iDts iPts : ℤ) (p : AVPacket) :
    Bool × FFmpegReader :=
  if r.Beyond iDts ∧ bVideo = false ∧ r.bMaxDurationReached = false then (true, r)
  else (r.reach bVideo iDts).settle bVideo iDts iPts p

/-- Monotone checks. -/
def repaired (t : Track) (iDts : ℤ) : ℤ :=
  if iDts ≤ t.iOldDts then t.iOldDts+t.pDesc.inc else iDts

/-- The stream counts the frame and keeps its time. -/
def count (r : FFmpegReader) (bVideo : Bool) (iDts : ℤ) (size : ℕ) : FFmpegReader :=
  let t := r.track bVideo
  let r := r.setTrack bVideo { t with iOldDts := iDts, iFrame := t.iFrame+1 }
  { r with vFrames := r.vFrames ++ [⟨bVideo, iDts, size⟩] }

def parse (r : FFmpegReader) (p : AVPacket) : Except SirannonException (Bool × FFmpegReader) :=
  let bVideo := decide (p.stream_index = r.video.iStream)
  if p.vConverted = [] then .error (runtimeError "No packets generated by parse function")
  else
    let t := r.track bVideo
    let iDts := repaired t (av_rescale_q p.dts t.scale oTimeBase+TIMESTAMP_MIN)
    let iPts := max iDts (av_rescale_q p.pts t.scale oTimeBase+TIMESTAMP_MIN)
    .ok ((r.count bVideo iDts p.vConverted.length).place bVideo iDts iPts p)

/-- At the end of the file: from the start again, or an end. -/
def rewind (r : FFmpegReader) : Bool × FFmpegReader :=
  if r.loop < 0 then (true, { r.parse_ctrl .reset with vAhead := r.vFile })
  else if r.iLoop < r.loop then
    (true, { r.parse_ctrl .reset with vAhead := r.vFile, iLoop := r.iLoop+1 })
  else (false, { r with iLoop := r.iLoop+1 }.parseEnd)

def doStep (r : FFmpegReader) : Except SirannonException (Bool × FFmpegReader) :=
  match r.vAhead with
  | [] => .ok r.rewind
  | p::ps =>
    if p.stream_index = r.video.iStream ∨ p.stream_index = r.audio.iStream then
      { r with vAhead := ps }.parse p
    else .ok (true, { r with vAhead := ps })

/-- `n` steps, over any number of calls, as long as the reader is scheduled. -/
def steps : ℕ → FFmpegReader → Except SirannonException FFmpegReader
  | 0, r => .ok r
  | n+1, r =>
    if r.bSchedule = true then do
      let (_, r) ← r.doStep
      steps n r
    else .ok r

/-! ## What never changes -/

structure Setting where
  vFile : List AVPacket
  videoStream : ℤ
  audioStream : ℤ
  videoInc : ℤ
  audioInc : ℤ
  iMaxDts : ℤ
  loop : ℤ

def setting (r : FFmpegReader) : Setting :=
  ⟨r.vFile, r.video.iStream, r.audio.iStream, r.video.pDesc.inc, r.audio.pDesc.inc, r.iMaxDts,
    r.loop⟩

/-- The demuxer numbers its streams from zero on, and the packets of both streams are converted
into media packets, at least one. -/
structure Setting.Legal (s : Setting) : Prop where
  videoStream : -1 ≤ s.videoStream
  audioStream : -1 ≤ s.audioStream
  distinct : 0 ≤ s.videoStream → s.videoStream ≠ s.audioStream
  videoInc : 0 < s.videoInc
  audioInc : 0 < s.audioInc
  stream_index : ∀ p ∈ s.vFile, 0 ≤ p.stream_index
  converted : ∀ p ∈ s.vFile, p.stream_index = s.videoStream ∨ p.stream_index = s.audioStream →
    p.vConverted ≠ [] ∧ ∀ q ∈ p.vConverted, q.type = .media

variable {r : FFmpegReader} {bVideo : Bool} {iDts iPts : ℤ} {p : AVPacket}

theorem routeCtrl_setting (pPckt : MediaPacket) : (r.routeCtrl bVideo pPckt).setting = r.setting := by
  rw [routeCtrl]
  split_ifs <;> rfl

theorem parse_ctrl_setting (type : PacketType) : (r.parse_ctrl type).setting = r.setting := by
  rw [parse_ctrl]
  split_ifs
  · rw [routeCtrl_setting, routeCtrl_setting]
  · exact (routeCtrl_setting _).trans (routeCtrl_setting _)

theorem parseEnd_setting : r.parseEnd.setting = r.setting := parse_ctrl_setting .end

theorem count_setting (iSize : ℕ) : (r.count bVideo iDts iSize).setting = r.setting := by
  cases bVideo <;> rfl

/-- Below the maximum a frame is routed, also when the other stream has passed it. -/
theorem place_below (h : ¬r.Beyond iDts)
    (hflag : r.bMaxDurationReached = true → bVideo = false ∧ 0 ≤ r.audio.iStream)
    (hmax : r.bMaxDurationReached = true → 0 < r.iMaxDts) :
    r.place bVideo iDts iPts p = (true, r.routeFrame bVideo iDts iPts p) := by
  rw [place, if_neg (fun hb => h hb.1), reach, if_neg (fun hb => h hb.1), settle]
  by_cases hreached : r.bMaxDurationReached = true
  · rcases hflag hreached with ⟨haudio, hstream⟩
    have hless : ¬r.iMaxDts ≤ iDts := fun hle => h ⟨hmax hreached, hle⟩
    rw [if_pos hreached, if_neg (by omega), if_neg (fun hb => hless hb.2), haudio,
      if_neg (by decide)]
  · rw [if_neg hreached]

/-- What is left of the reader by a frame that is discarded. -/
def discard (r : FFmpegReader) (bVideo : Bool) : FFmpegReader :=
  { r with bMaxDurationReached := r.bMaxDurationReached || bVideo }

/-- From the maximum on a frame is discarded, and the reader ends once the video has passed it
and the audio too, or there is no audio. -/
theorem place_beyond (h : r.Beyond iDts) :
    (r.place bVideo iDts iPts p).2 =
      if (r.discard bVideo).bMaxDurationReached = true ∧
          (r.audio.iStream < 0 ∨ bVideo = false) then
        { r.discard bVideo with iOldDts := r.iMaxDts }.parseEnd
      else r.discard bVideo := by
  rw [place, discard, reach]
  cases bVideo with
  | true =>
    rw [if_neg (by simp), if_pos ⟨h, rfl⟩, settle, Bool.or_true, if_pos rfl]
    dsimp only
    by_cases haudio : r.audio.iStream < 0
    · rw [if_pos haudio, if_pos ⟨rfl, Or.inl haudio⟩]
    · rw [if_neg haudio, if_neg (by simp), if_pos rfl, if_neg (by simp [haudio])]
  | false =>
    rw [Bool.or_false]
    by_cases hreached : r.bMaxDurationReached = true
    · rw [if_neg (by simp [hreached]), if_neg (by simp), settle, if_pos hreached]
      have hend : r.bMaxDurationReached = true ∧ (r.audio.iStream < 0 ∨ false = false) :=
        ⟨hreached, Or.inr rfl⟩
      dsimp only
      rw [if_pos hend]
      by_cases haudio : r.audio.iStream < 0
      · rw [if_pos haudio]
      · rw [if_neg haudio, if_pos ⟨rfl, h.2⟩]
    · rw [if_pos ⟨h, rfl, by simpa using hreached⟩]
      dsimp only
      rw [if_neg (fun hb => hreached hb.1)]

/-! ## What has been routed so far -/

/-- The unit numbers from `n` on. -/
def Numbered (n : ℕ) (ps : List MediaPacket) : Prop :=
  ps.map (fun q => q.unitnumber) = (List.range ps.length).map fun i => ((n+i : ℕ) : ℤ)

def isMedia (q : MediaPacket) : Bool := q.type = .media

def isEnd (q : MediaPacket) : Bool := q.type = .end

/-- What a packet shows of its frame. -/
def shape (q : MediaPacket) : ContentType × ℤ × Bool × Bool :=
  (q.content, q.dts, q.framestart, q.frameend)

/-- The packets of a frame: one time, and only the first and the last one are marked. -/
def shapes (f : Frame) : List (ContentType × ℤ × Bool × Bool) :=
  (List.range f.size).map fun i =>
    (content f.bVideo, f.dts, decide (i = 0), decide (i+1 = f.size))

def below (iMaxDts : ℤ) (f : Frame) : Bool := ¬(0 < iMaxDts ∧ iMaxDts ≤ f.dts)

structure Inv (r : FFmpegReader) : Prop where
  iUnit : r.iUnit = r.vRouted.length
  units : Numbered 0 r.vRouted
  media : (r.vRouted.filter isMedia).map shape = (r.vFrames.filter (below r.iMaxDts)).flatMap shapes
  pts : ∀ q ∈ r.vRouted, isMedia q = true → q.dts ≤ q.pts
  rising : ∀ b, ((r.vFrames.filter fun f => f.bVideo = b).map Frame.dts).Pairwise (· < ·)
  size : ∀ f ∈ r.vFrames, 0 < f.size
  last : ∀ f ∈ r.vFrames, f.dts ≤ (r.track f.bVideo).iOldDts
  flag : r.bMaxDurationReached = true ↔ r.Beyond r.video.iOldDts

theorem numbered_append {n : ℕ} {ps qs : List MediaPacket} (hp : Numbered n ps)
    (hq : Numbered (n+ps.length) qs) : Numbered n (ps ++ qs) := by
  rw [Numbered] at hp hq ⊢
  rw [List.map_append, hp, hq, List.length_append, List.range_add, List.map_append, List.map_map]
  congr 1
  apply List.map_congr_left
  intro i _
  rw [Function.comp_apply, add_assoc]

theorem numbered_one {n : ℕ} {q : MediaPacket} (h : q.unitnumber = n) : Numbered n [q] := by
  simp [Numbered, h]

/-- A control packet takes a unit number and nothing else. -/
theorem routeCtrl_inv (h : r.Inv) (bVideo : Bool) {pPckt : MediaPacket}
    (htype : isMedia pPckt = false) :
    (r.routeCtrl bVideo pPckt).Inv := by
  rw [routeCtrl]
  split_ifs
  · exact h
  · have hlength := h.iUnit
    constructor
    · dsimp only
      rw [hlength, List.length_append, List.length_singleton]
      push_cast
      rfl
    · apply numbered_append h.units
      apply numbered_one
      dsimp only
      rw [hlength, zero_add]
    · rw [List.filter_append, List.filter_singleton]
      have hnone : isMedia pPckt = false := htype
      rw [isMedia] at hnone
      rw [isMedia]
      dsimp only
      rw [hnone]
      simpa using h.media
    · intro q hq hmedia
      rcases List.mem_append.mp hq with hold | hnew
      · exact h.pts q hold hmedia
      · rw [List.mem_singleton] at hnew
        rw [hnew] at hmedia
        exact absurd (htype.symm.trans hmedia) (by decide)
    · exact h.rising
    · exact h.size
    · exact h.last
    · exact h.flag

/-- The invariant is about these fields only. -/
theorem inv_same {r' : FFmpegReader} (h : r.Inv) (hunit : r'.iUnit = r.iUnit)
    (hrouted : r'.vRouted = r.vRouted) (hframes : r'.vFrames = r.vFrames)
    (hflag : r'.bMaxDurationReached = r.bMaxDurationReached) (hmax : r'.iMaxDts = r.iMaxDts)
    (hold : ∀ b, (r'.track b).iOldDts = (r.track b).iOldDts) : r'.Inv := by
  constructor
  · rw [hunit, hrouted]
    exact h.iUnit
  · rw [hrouted]
    exact h.units
  · rw [hrouted, hframes, hmax]
    exact h.media
  · rw [hrouted]
    exact h.pts
  · rw [hframes]
    exact h.rising
  · rw [hframes]
    exact h.size
  · rw [hframes]
    intro f hf
    rw [hold]
    exact h.last f hf
  · have hvideo : r'.video.iOldDts = r.video.iOldDts := hold true
    rw [hflag, hvideo, Beyond, hmax]
    exact h.flag

theorem countAudio_inv (h : r.Inv) : r.countAudio.Inv :=
  inv_same h rfl rfl rfl rfl rfl (fun b => by cases b <;> rfl)

theorem parse_ctrl_inv (h : r.Inv) {type : PacketType} (htype : type ≠ .media) :
    (r.parse_ctrl type).Inv := by
  have hctrl : isMedia (r.ctrlPacket type) = false := by
    rw [isMedia]
    exact decide_eq_false htype
  have hboth := routeCtrl_inv (routeCtrl_inv h true hctrl) false hctrl
  rw [parse_ctrl]
  split_ifs
  · exact hboth
  · exact countAudio_inv hboth

theorem parseEnd_inv (h : r.Inv) : r.parseEnd.Inv :=
  inv_same (parse_ctrl_inv h (by decide)) rfl rfl rfl rfl rfl (fun _ => rfl)

/-- A frame behind the last one of its stream. -/
theorem rising_snoc (h : r.Inv) {iSize : ℕ} (hlast : (r.track bVideo).iOldDts < iDts) (b : Bool) :
    (((r.vFrames ++ [Frame.mk bVideo iDts iSize]).filter fun f => f.bVideo = b).map
      Frame.dts).Pairwise (· < ·) := by
  by_cases hsame : bVideo = b
  · have hfilter : ((r.vFrames ++ [Frame.mk bVideo iDts iSize]).filter fun f => f.bVideo = b) =
        (r.vFrames.filter fun f => f.bVideo = b) ++ [Frame.mk bVideo iDts iSize] := by
      simp [hsame]
    rw [hfilter, List.map_append, List.pairwise_append]
    refine ⟨h.rising b, by simp, ?_⟩
    intro x hx y hy
    rcases List.mem_map.mp hx with ⟨f, hf, hfx⟩
    rcases List.mem_filter.mp hf with ⟨hmem, hb⟩
    have hy' : y = iDts := List.mem_singleton.mp hy
    have hstream : f.bVideo = bVideo := (of_decide_eq_true hb).trans hsame.symm
    have hle := h.last f hmem
    rw [hstream] at hle
    omega
  · have hfilter : ((r.vFrames ++ [Frame.mk bVideo iDts iSize]).filter fun f => f.bVideo = b) =
        r.vFrames.filter fun f => f.bVideo = b := by
      simp [hsame]
    rw [hfilter]
    exact h.rising b

theorem count_last (h : r.Inv) (iSize : ℕ) (hlast : (r.track bVideo).iOldDts < iDts) :
    ∀ f ∈ (r.count bVideo iDts iSize).vFrames,
      f.dts ≤ ((r.count bVideo iDts iSize).track f.bVideo).iOldDts := by
  intro f hf
  have hframes : (r.count bVideo iDts iSize).vFrames = r.vFrames ++ [⟨bVideo, iDts, iSize⟩] := by
    cases bVideo <;> rfl
  have hgrows : ∀ b, (r.track b).iOldDts ≤ ((r.count bVideo iDts iSize).track b).iOldDts := by
    intro b
    cases bVideo <;> cases b
    · exact hlast.le
    · exact le_rfl
    · exact le_rfl
    · exact hlast.le
  rw [hframes, List.mem_append, List.mem_singleton] at hf
  rcases hf with hold | hnew
  · exact (h.last f hold).trans (hgrows f.bVideo)
  · rw [hnew]
    cases bVideo <;> exact le_rfl

theorem count_size (h : r.Inv) {iSize : ℕ} (hsize : 0 < iSize) :
    ∀ f ∈ (r.count bVideo iDts iSize).vFrames, 0 < f.size := by
  intro f hf
  have hframes : (r.count bVideo iDts iSize).vFrames = r.vFrames ++ [⟨bVideo, iDts, iSize⟩] := by
    cases bVideo <;> rfl
  rw [hframes, List.mem_append, List.mem_singleton] at hf
  rcases hf with hold | hnew
  · exact h.size f hold
  · rw [hnew]
    exact hsize

/-- A frame at or after the maximum moves the state, and nothing is routed. -/
theorem discard_inv (h : r.Inv) {iSize : ℕ} (hsize : 0 < iSize)
    (hlast : (r.track bVideo).iOldDts < iDts) (hbeyond : r.Beyond iDts) : ((r.count bVideo iDts iSize).discard bVideo).Inv := by
  have hframes : (r.count bVideo iDts iSize).vFrames = r.vFrames ++ [⟨bVideo, iDts, iSize⟩] := by
    cases bVideo <;> rfl
  have hrouted : (r.count bVideo iDts iSize).vRouted = r.vRouted := by cases bVideo <;> rfl
  have hmax : (r.count bVideo iDts iSize).iMaxDts = r.iMaxDts := by cases bVideo <;> rfl
  have hunit : (r.count bVideo iDts iSize).iUnit = r.iUnit := by cases bVideo <;> rfl
  constructor
  · show (r.count bVideo iDts iSize).iUnit = (r.count bVideo iDts iSize).vRouted.length
    rw [hrouted, hunit]
    exact h.iUnit
  · show Numbered 0 (r.count bVideo iDts iSize).vRouted
    rw [hrouted]
    exact h.units
  · show ((r.count bVideo iDts iSize).vRouted.filter isMedia).map shape =
      ((r.count bVideo iDts iSize).vFrames.filter
        (below (r.count bVideo iDts iSize).iMaxDts)).flatMap shapes
    have hnot : below r.iMaxDts ⟨bVideo, iDts, iSize⟩ = false := by
      rw [below]
      exact decide_eq_false (not_not.mpr hbeyond)
    rw [hrouted, hframes, hmax, List.filter_append, List.filter_singleton, hnot]
    simpa using h.media
  · show ∀ q ∈ (r.count bVideo iDts iSize).vRouted, isMedia q = true → q.dts ≤ q.pts
    rw [hrouted]
    exact h.pts
  · intro b
    show (((r.count bVideo iDts iSize).vFrames.filter fun f => f.bVideo = b).map
      Frame.dts).Pairwise (· < ·)
    rw [hframes]
    exact rising_snoc h hlast b
  · exact count_size h hsize
  · exact count_last h iSize hlast
  · cases bVideo with
    | true =>
      have hset : ((r.count true iDts iSize).discard true).bMaxDurationReached = true :=
        Bool.or_true _
      rw [hset]
      exact ⟨fun _ => hbeyond, fun _ => rfl⟩
    | false =>
      have hsame : ((r.count false iDts iSize).discard false).bMaxDurationReached =
          r.bMaxDurationReached := Bool.or_false _
      rw [hsame]
      exact h.flag

theorem stamped_shapes {r : FFmpegReader} :
    (p.vConverted.mapIdx (r.stamp bVideo iDts iPts p)).map shape =
      shapes ⟨bVideo, iDts, p.vConverted.length⟩ := by
  apply List.ext_getElem
  · simp [shapes]
  · intro i hi hi'
    simp [shapes, shape, stamp]

theorem stamped_numbered {n : ℕ} (h : r.iUnit = n) :
    Numbered n (p.vConverted.mapIdx (r.stamp bVideo iDts iPts p)) := by
  rw [Numbered]
  apply List.ext_getElem
  · simp
  · intro i hi hi'
    simp [stamp, h]

theorem stamped_mem {q : MediaPacket}
    (h : q ∈ p.vConverted.mapIdx (r.stamp bVideo iDts iPts p)) :
    q.dts = iDts ∧ q.pts = iPts ∧ ∃ q' ∈ p.vConverted, q.type = q'.type := by
  rcases List.mem_mapIdx.mp h with ⟨i, hi, hq⟩
  rw [← hq]
  exact ⟨rfl, rfl, _, List.getElem_mem hi, rfl⟩

/-- A frame below the maximum is routed whole. -/
theorem routeFrame_inv (h : r.Inv) (hlast : (r.track bVideo).iOldDts < iDts)
    (hbelow : ¬r.Beyond iDts) (hpts : iDts ≤ iPts) (hsome : p.vConverted ≠ [])
    (hmedia : ∀ q ∈ p.vConverted, q.type = .media) :
    ((r.count bVideo iDts p.vConverted.length).routeFrame bVideo iDts iPts p).Inv := by
  have hframes : (r.count bVideo iDts p.vConverted.length).vFrames =
      r.vFrames ++ [Frame.mk bVideo iDts p.vConverted.length] := by
    cases bVideo <;> rfl
  have hrouted : (r.count bVideo iDts p.vConverted.length).vRouted = r.vRouted := by
    cases bVideo <;> rfl
  have hmax : (r.count bVideo iDts p.vConverted.length).iMaxDts = r.iMaxDts := by
    cases bVideo <;> rfl
  have hunit : (r.count bVideo iDts p.vConverted.length).iUnit = r.vRouted.length := by
    rw [← h.iUnit]
    cases bVideo <;> rfl
  generalize hcount : r.count bVideo iDts p.vConverted.length = r' at hframes hrouted hmax hunit ⊢
  have hmem : ∀ q ∈ p.vConverted.mapIdx (r'.stamp bVideo iDts iPts p),
      isMedia q = true ∧ q.dts = iDts ∧ q.pts = iPts := by
    intro q hq
    rcases stamped_mem hq with ⟨hdts, hpts', q', hq', htype⟩
    refine ⟨?_, hdts, hpts'⟩
    rw [isMedia, htype, hmedia q' hq']
    rfl
  constructor
  · show r'.iUnit+p.vConverted.length =
      ((r'.vRouted ++ p.vConverted.mapIdx (r'.stamp bVideo iDts iPts p)).length : ℕ)
    rw [hrouted, hunit, List.length_append, List.length_mapIdx]
    push_cast
    rfl
  · show Numbered 0 (r'.vRouted ++ p.vConverted.mapIdx (r'.stamp bVideo iDts iPts p))
    rw [hrouted]
    apply numbered_append h.units
    rw [zero_add]
    exact stamped_numbered hunit
  · show ((r'.vRouted ++ p.vConverted.mapIdx (r'.stamp bVideo iDts iPts p)).filter
      isMedia).map shape = (r'.vFrames.filter (below r'.iMaxDts)).flatMap shapes
    have hyes : below r.iMaxDts ⟨bVideo, iDts, p.vConverted.length⟩ = true := by
      rw [below]
      exact decide_eq_true hbelow
    have hall : (p.vConverted.mapIdx (r'.stamp bVideo iDts iPts p)).filter isMedia =
        p.vConverted.mapIdx (r'.stamp bVideo iDts iPts p) := by
      rw [List.filter_eq_self]
      intro q hq
      exact (hmem q hq).1
    rw [hrouted, hframes, hmax, List.filter_append, List.filter_append, hall, List.map_append,
      h.media, stamped_shapes, List.flatMap_append, List.filter_cons_of_pos hyes, List.filter_nil,
      List.flatMap_singleton]
  · show ∀ q ∈ r'.vRouted ++ p.vConverted.mapIdx (r'.stamp bVideo iDts iPts p),
      isMedia q = true → q.dts ≤ q.pts
    rw [hrouted]
    intro q hq hq'
    rcases List.mem_append.mp hq with hold | hnew
    · exact h.pts q hold hq'
    · rw [(hmem q hnew).2.1, (hmem q hnew).2.2]
      exact hpts
  · intro b
    show ((r'.vFrames.filter fun f => f.bVideo = b).map Frame.dts).Pairwise (· < ·)
    rw [hframes]
    exact rising_snoc h hlast b
  · have hcounted : ∀ f ∈ (r.count bVideo iDts p.vConverted.length).vFrames, 0 < f.size :=
      count_size h (List.length_pos_iff.mpr hsome)
    rw [hcount] at hcounted
    exact hcounted
  · have hcounted := count_last h p.vConverted.length hlast
    rw [hcount] at hcounted
    exact hcounted
  · show r'.bMaxDurationReached = true ↔ r'.Beyond r'.video.iOldDts
    rw [← hcount]
    cases bVideo with
    | false => exact h.flag
    | true =>
      have hnot : ¬r.Beyond r.video.iOldDts := by
        intro hbeyond
        have hless : r.video.iOldDts < iDts := hlast
        exact hbelow ⟨hbeyond.1, by have := hbeyond.2; omega⟩
      constructor
      · intro hset
        exact absurd (h.flag.mp hset) hnot
      · intro hbeyond
        exact absurd hbeyond hbelow

end FFmpegReader

end Sirannon.FFmpegReading
