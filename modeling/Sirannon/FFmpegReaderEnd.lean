import Sirannon.FFmpegReaderRun

/-!
# The end of a file that is played again and again

Every pass over the file moves the time of each stream that has a packet in it,
until the video and the audio have passed the maximum. A stream without packets
never does: the reader plays on for ever.
-/

set_option autoImplicit false

namespace Sirannon.FFmpegReading.FFmpegReader
open Media Bits Rescale

variable {r r' : FFmpegReader}

/-- The file has a packet of the stream. -/
def Present (r : FFmpegReader) (bVideo : Bool) : Prop :=
  ∃ p ∈ r.vFile, p.stream_index = (r.track bVideo).iStream

theorem present_same (h : r'.setting = r.setting) (bVideo : Bool) :
    r'.Present bVideo ↔ r.Present bVideo := by
  have hfile : r'.vFile = r.vFile := congrArg Setting.vFile h
  rw [Present, Present, hfile, track_iStream h]

/-- What is done at the end of a file that is played for ever. -/
theorem step_again (h : Step r r') (hempty : r.vAhead = []) (hloop : r.loop < 0) :
    r'.vAhead = r'.vFile ∧ r'.bMaxDurationReached = r.bMaxDurationReached ∧
      ∀ b, (r'.track b).iOldDts = (r.track b).iOldDts := by
  cases h with
  | again _ iLoop _ =>
    rcases parse_ctrl_keeps (r := r) .reset with ⟨_, _, _, hflag, htimes⟩
    have hfile : (r.parse_ctrl .reset).vFile = r.vFile :=
      congrArg Setting.vFile (parse_ctrl_setting .reset)
    exact ⟨hfile.symm, hflag, htimes⟩
  | finish _ hend => omega
  | other q qs hahead hstream => simp [hempty] at hahead
  | read q qs hahead hstream iDts hlast after hread => simp [hempty] at hahead

theorem ends_forever (k : ℕ) (ho : r.Open) (hfull : r.vAhead = r.vFile) (hloop : r.loop < 0)
    (hmax : 0 < r.iMaxDts) (hvideo : r.Present true) (hlast : r.Present r.lastTrack)
    (hk : ∀ b, b = true ∨ b = r.lastTrack → r.iMaxDts-(r.track b).iOldDts ≤ k) : r.Ends := by
  induction k generalizing r with
  | zero =>
    have hbeyond : ∀ b, b = true ∨ b = r.lastTrack → r.Beyond (r.track b).iOldDts := by
      intro b hb
      have hless := hk b hb
      exact ⟨hmax, by omega⟩
    apply ends_ripe r.vAhead rfl ho
    · exact ⟨ho.inv.flag.mpr (hbeyond true (Or.inl rfl)), hbeyond r.lastTrack (Or.inr rfl)⟩
    · rw [hfull]
      exact hlast
  | succ k ih =>
    apply ends_pass r.vAhead rfl ho
    intro r₁ ho₁ hsetting hempty hcount hgrown
    have hloop₁ : r₁.loop < 0 := by
      have hsame : r₁.loop = r.loop := congrArg Setting.loop hsetting
      omega
    apply ends_step ho₁
    intro r₂ hstep ho₂
    have hsetting₂ := (step_setting hstep).trans hsetting
    have hsame : r₂.iMaxDts = r.iMaxDts := congrArg Setting.iMaxDts hsetting₂
    have hloop₂ : r₂.loop = r.loop := congrArg Setting.loop hsetting₂
    rcases step_again hstep hempty hloop₁ with ⟨hfull₂, _, htimes⟩
    apply ih ho₂ hfull₂
    · rw [hloop₂]
      exact hloop
    · rw [hsame]
      exact hmax
    · exact (present_same hsetting₂ true).mpr hvideo
    · rw [lastTrack_same hsetting₂]
      exact (present_same hsetting₂ r.lastTrack).mpr hlast
    · intro b hb
      rw [lastTrack_same hsetting₂] at hb
      have hpresent : r.Present b := by
        rcases hb with hb | hb
        · rw [hb]
          exact hvideo
        · rw [hb]
          exact hlast
      have hless := hk b hb
      have hmore := (hgrown b).2 (by rw [hfull]; exact hpresent)
      rw [hsame, htimes b]
      push_cast at hless
      omega

/-! ## A stream without packets -/

/-- The video cannot reach the maximum, or no packet of the audio is there to end the reader. -/
def Stuck (r : FFmpegReader) : Prop :=
  r.loop < 0 ∧ (¬r.Present true ∧ r.bMaxDurationReached = false ∨
    r.lastTrack = false ∧ ¬r.Present false)

theorem read_stuck {p : AVPacket} {iDts : ℤ} (hs : r.Stuck) (hp : p ∈ r.vFile)
    (hstream : p.stream_index = r.video.iStream ∨ p.stream_index = r.audio.iStream)
    (h : Read r p (r.ofVideo p) iDts r') :
    r'.bSchedule = r.bSchedule ∧
      (¬r.Present true → r'.bMaxDurationReached = r.bMaxDurationReached) := by
  have haudio : ¬r.Present true → r.ofVideo p = false := by
    intro hnone
    apply decide_eq_false
    intro hsame
    exact hnone ⟨p, hp, hsame⟩
  rcases count_keeps r (r.ofVideo p) iDts p.vConverted.length with ⟨_, _, hschedule, _⟩
  have hflag : (r.count (r.ofVideo p) iDts p.vConverted.length).bMaxDurationReached =
      r.bMaxDurationReached := by
    cases r.ofVideo p <;> rfl
  cases h with
  | routed iPts hpts hbelow => exact ⟨hschedule, fun _ => hflag⟩
  | discarded hbeyond hopen =>
    refine ⟨hschedule, fun hnone => ?_⟩
    show ((r.count (r.ofVideo p) iDts p.vConverted.length).bMaxDurationReached ||
      r.ofVideo p) = r.bMaxDurationReached
    rw [hflag, haudio hnone, Bool.or_false]
  | ended hbeyond hend =>
    exfalso
    rcases hs.2 with ⟨hnone, hunset⟩ | ⟨hthere, hnone⟩
    · rw [hunset, haudio hnone] at hend
      exact absurd hend.1 (by decide)
    · have hindex : ¬r.audio.iStream < 0 := of_decide_eq_false hthere
      have hof : r.ofVideo p = false := hend.2.resolve_left hindex
      have hother : ¬p.stream_index = r.video.iStream := of_decide_eq_false hof
      exact hnone ⟨p, hp, hstream.resolve_left hother⟩

theorem step_stuck (h : Step r r') (ho : r.Open) (hs : r.Stuck) : r'.Open ∧ r'.Stuck := by
  have hsetting := step_setting h
  have hkept : r'.bSchedule = r.bSchedule ∧
      (¬r.Present true → r'.bMaxDurationReached = r.bMaxDurationReached) := by
    cases h with
    | again hempty iLoop hloop =>
      rcases parse_ctrl_keeps (r := r) .reset with ⟨_, _, hschedule, hflag, _⟩
      exact ⟨hschedule, fun _ => hflag⟩
    | finish hempty hloop =>
      have := hs.1
      omega
    | other q qs hahead hstream => exact ⟨rfl, fun _ => rfl⟩
    | read q qs hahead hstream iDts hlast after hread =>
      have hmem := (ahead_open ho hahead).2
      exact read_stuck (r := { r with vAhead := qs }) hs hmem hstream hread
  constructor
  · rcases step_open h ho with ho' | he
    · exact ho'
    · have hend := he.bSchedule
      rw [hkept.1, ho.bSchedule] at hend
      exact absurd hend (by decide)
  · have hloop : r'.loop = r.loop := congrArg Setting.loop hsetting
    rw [Stuck, hloop, present_same hsetting, present_same hsetting, lastTrack_same hsetting]
    refine ⟨hs.1, ?_⟩
    rcases hs.2 with ⟨hnone, hunset⟩ | haudio
    · left
      rw [hkept.2 hnone]
      exact ⟨hnone, hunset⟩
    · exact Or.inr haudio

theorem steps_stuck (n : ℕ) (ho : r.Open) (hs : r.Stuck) (h : steps n r = .ok r') :
    r'.bSchedule = true := by
  induction n generalizing r with
  | zero =>
    rw [steps] at h
    rw [← Except.ok.inj h]
    exact ho.bSchedule
  | succ n ih =>
    rw [steps, if_pos ho.bSchedule] at h
    rcases doStep_step ho with ⟨b, r₁, hrun, hstep⟩
    simp only [hrun, bind, Except.bind] at h
    rcases step_stuck hstep ho hs with ⟨ho₁, hs₁⟩
    exact ih ho₁ hs₁ h

theorem stuck_forever (ho : r.Open) (hs : r.Stuck) : ¬r.Ends := by
  rintro ⟨n, r', hrun, hend⟩
  have hgoes := steps_stuck n ho hs hrun
  rw [hend] at hgoes
  exact absurd hgoes (by decide)

/-! ## Reading a file -/

/-- A reader that has just been opened. -/
structure Fresh (r : FFmpegReader) : Prop where
  legal : r.setting.Legal
  ahead : r.vAhead = r.vFile
  iUnit : r.iUnit = 0
  iOldDts : ∀ b, (r.track b).iOldDts = -1
  flag : r.bMaxDurationReached = false
  iLoop : r.iLoop = 1
  bSchedule : r.bSchedule = true
  vFrames : r.vFrames = []
  vRouted : r.vRouted = []

theorem fresh_open (h : r.Fresh) : r.Open := by
  constructor
  · exact h.legal
  · constructor
    · rw [h.iUnit, h.vRouted]
      rfl
    · rw [h.vRouted]
      rfl
    · rw [h.vRouted, h.vFrames]
      rfl
    · rw [h.vRouted]
      simp
    · rw [h.vFrames]
      simp
    · rw [h.vFrames]
      simp
    · rw [h.vFrames]
      simp
    · have hvideo : r.video.iOldDts = -1 := h.iOldDts true
      rw [h.flag, hvideo, Beyond]
      constructor
      · intro hset
        exact absurd hset (by decide)
      · intro hbeyond
        omega
  · rw [h.ahead]
    exact fun p hp => hp
  · exact h.bSchedule
  · rw [h.vRouted]
    simp

/-- What holds at any time of what has been routed: the frames that have been read below the
maximum, whole and with rising times, and the ends once the reader is through. -/
structure Tidy (r : FFmpegReader) : Prop where
  inv : r.Inv
  cut : 0 < r.iMaxDts → ∀ q ∈ r.vRouted, isMedia q = true → q.dts < r.iMaxDts
  ends : ∃ vFront vEnds, r.vRouted = vFront ++ vEnds ∧ (∀ q ∈ vFront, isEnd q = false) ∧
    vEnds.map (fun q => (q.type, q.content)) = if r.bSchedule then [] else ctrls r.setting .end

theorem inv_cut (h : r.Inv) (hmax : 0 < r.iMaxDts) :
    ∀ q ∈ r.vRouted, isMedia q = true → q.dts < r.iMaxDts := by
  intro q hq hmedia
  have hshape : shape q ∈ (r.vRouted.filter isMedia).map shape :=
    List.mem_map_of_mem (List.mem_filter.mpr ⟨hq, hmedia⟩)
  rw [h.media, List.mem_flatMap] at hshape
  rcases hshape with ⟨f, hf, hmem⟩
  have hbelow : ¬(0 < r.iMaxDts ∧ r.iMaxDts ≤ f.dts) :=
    of_decide_eq_true (List.mem_filter.mp hf).2
  rcases List.mem_map.mp hmem with ⟨i, _, hi⟩
  have hdts : f.dts = q.dts := congrArg (fun s => s.2.1) hi
  by_contra hnot
  exact hbelow ⟨hmax, by omega⟩

theorem state_tidy (h : r.Open ∨ r.Ended) : r.Tidy := by
  rcases h with ho | he
  · refine ⟨ho.inv, inv_cut ho.inv, r.vRouted, [], by simp, ho.noEnd, ?_⟩
    rw [ho.bSchedule]
    rfl
  · refine ⟨he.inv, inv_cut he.inv, ?_⟩
    rcases he.ends with ⟨vFront, vEnds, hrouted, hfront, hends⟩
    refine ⟨vFront, vEnds, hrouted, hfront, ?_⟩
    rw [he.bSchedule]
    exact hends

/-- A file that is played for ever has packets of the video, and of the audio if there is any. -/
def Setting.Passing (s : Setting) : Prop :=
  (∃ p ∈ s.vFile, p.stream_index = s.videoStream) ∧
    (s.audioStream < 0 ∨ ∃ p ∈ s.vFile, p.stream_index = s.audioStream)

theorem passing_present : r.setting.Passing ↔ r.Present true ∧ r.Present r.lastTrack := by
  rw [Setting.Passing]
  by_cases haudio : r.audio.iStream < 0
  · have hlast : r.lastTrack = true := decide_eq_true haudio
    rw [hlast]
    exact ⟨fun h => ⟨h.1, h.1⟩, fun h => ⟨h.1, Or.inl haudio⟩⟩
  · have hlast : r.lastTrack = false := decide_eq_false haudio
    rw [hlast]
    exact ⟨fun h => ⟨h.1, h.2.resolve_left haudio⟩, fun h => ⟨h.1, Or.inr h.2⟩⟩

theorem fresh_stuck (h : r.Fresh) (hloop : r.loop < 0) (hnone : ¬r.setting.Passing) :
    r.Stuck := by
  refine ⟨hloop, ?_⟩
  rw [passing_present] at hnone
  by_cases hvideo : r.Present true
  · have hother : ¬r.Present r.lastTrack := fun hlast => hnone ⟨hvideo, hlast⟩
    right
    cases hlast : r.lastTrack with
    | true =>
      rw [hlast] at hother
      exact absurd hvideo hother
    | false =>
      rw [hlast] at hother
      exact ⟨rfl, hother⟩
  · exact Or.inl ⟨hvideo, h.flag⟩

theorem fresh_ends (h : r.Fresh) (hmax : 0 < r.iMaxDts)
    (hwhen : 0 ≤ r.loop ∨ r.setting.Passing) : r.Ends := by
  by_cases hloop : 0 ≤ r.loop
  · exact ends_finite _ (fresh_open h) hloop (Nat.lt_succ_self _)
  · rcases passing_present.mp (hwhen.resolve_left hloop) with ⟨hvideo, hlast⟩
    apply ends_forever (r.iMaxDts+1).toNat (fresh_open h) h.ahead (by omega) hmax hvideo hlast
    intro b _
    rw [h.iOldDts b]
    omega

/-- With a maximum and without a last pass the reader ends only when there are packets of the
video in the file, and packets of the audio if there is any. -/
theorem ffmpeg_reader_iff (r : FFmpegReader) (h : r.Fresh) :
    ((∀ n, ∃ r', steps n r = .ok r' ∧ r'.setting = r.setting ∧ r'.Tidy) ∧
      (0 < r.iMaxDts → ∃ n r', steps n r = .ok r' ∧ r'.bSchedule = false)) ↔
      r.iMaxDts ≤ 0 ∨ 0 ≤ r.loop ∨ r.setting.Passing := by
  constructor
  · rintro ⟨_, hends⟩
    by_contra hnot
    rw [not_or, not_or] at hnot
    rcases hnot with ⟨hmax, hloop, hnone⟩
    exact stuck_forever (fresh_open h) (fresh_stuck h (by omega) hnone) (hends (by omega))
  · intro hwhen
    constructor
    · intro n
      rcases steps_open n (Or.inl (fresh_open h)) with ⟨r', hrun, hsetting, hstate⟩
      exact ⟨r', hrun, hsetting, state_tidy hstate⟩
    · intro hmax
      exact fresh_ends h hmax (hwhen.resolve_left (by omega))

/-! ## Two files -/

def opened (vFile : List AVPacket) (videoStream audioStream iMaxDts loop : ℤ) :
    FFmpegReader where
  vFile := vFile
  vAhead := vFile
  video := ⟨videoStream, oTimeBase, 0, ⟨⟨.video, .avc, 176, 144, 64000, 0, 0, []⟩, 3600, 100⟩, -1, -1⟩
  audio := ⟨audioStream, oTimeBase, 1, ⟨⟨.audio, .mp4a, 0, 0, 64000, 44100, 2, []⟩, 2089, 200⟩, -1, -1⟩
  bMovFrameStructure := false
  iUnit := 0
  iOldDts := -1
  iMaxDts := iMaxDts
  bMaxDurationReached := false
  loop := loop
  iLoop := 1
  bSchedule := true
  vFrames := []
  vRouted := []

theorem opened_fresh {vFile : List AVPacket} {videoStream audioStream iMaxDts loop : ℤ}
    (h : (opened vFile videoStream audioStream iMaxDts loop).setting.Legal) :
    (opened vFile videoStream audioStream iMaxDts loop).Fresh :=
  ⟨h, rfl, rfl, fun b => by cases b <;> rfl, rfl, rfl, rfl, rfl, rfl⟩

def frameData : AVPacket :=
  ⟨0, 0, 0, true, [(MediaPacket.new .media .mixed 2).pushed [0x21, 0x10]]⟩

/-- A picture and a frame of audio, played for ever up to one second. -/
def clip : FFmpegReader := opened [frameData, { frameData with stream_index := 1 }] 0 1 180000 (-1)

theorem clip_fresh : clip.Fresh := by
  apply opened_fresh
  constructor
  · decide
  · decide
  · intro _
    decide
  · decide
  · decide
  · decide
  · decide

theorem ffmpeg_reader_witness :
    (∀ n, ∃ r', steps n clip = .ok r' ∧ r'.setting = clip.setting ∧ r'.Tidy) ∧
      (0 < clip.iMaxDts → ∃ n r', steps n clip = .ok r' ∧ r'.bSchedule = false) := by
  apply (ffmpeg_reader_iff clip clip_fresh).mpr
  right
  right
  exact ⟨⟨frameData, by decide, rfl⟩, Or.inr ⟨{ frameData with stream_index := 1 }, by decide, rfl⟩⟩

/-- A file with audio only. -/
def song : FFmpegReader := opened [frameData] (-1) 0 180000 (-1)

theorem song_fresh : song.Fresh := by
  apply opened_fresh
  constructor
  · decide
  · decide
  · intro hvideo
    exact absurd hvideo (by decide)
  · decide
  · decide
  · decide
  · decide

/-- The audio passes the maximum again and again, and there is never an end. -/
theorem song_forever : song.Fresh ∧ 0 < song.iMaxDts ∧
    ¬∃ n r', steps n song = .ok r' ∧ r'.bSchedule = false := by
  refine ⟨song_fresh, by decide, ?_⟩
  apply stuck_forever (fresh_open song_fresh)
  apply fresh_stuck song_fresh (by decide)
  rintro ⟨⟨p, hp, hvideo⟩, _⟩
  have hindex := song_fresh.legal.stream_index p hp
  have hnone : p.stream_index = -1 := hvideo
  omega

end Sirannon.FFmpegReading.FFmpegReader
