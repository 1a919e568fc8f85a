import Sirannon.FFmpegReader

/-!
# Runs of the container reader

While the reader is scheduled no end has been routed, and afterwards the ends
of its streams are the last packets. With a maximum a reader that plays the
file again and again comes to its end only when the video passes the maximum
and then a packet of audio does, or when there is no audio.
-/

set_option autoImplicit false

namespace Sirannon.FFmpegReading.FFmpegReader
open Media Bits Rescale

variable {r r' : FFmpegReader} {bVideo : Bool} {iDts iPts : ℤ} {p : AVPacket}

/-! ## A step -/

theorem repaired_after (t : Track) (hinc : 0 < t.pDesc.inc) (iDts : ℤ) :
    t.iOldDts < repaired t iDts := by
  rw [repaired]
  split_ifs <;> omega

theorem track_inc (hl : r.setting.Legal) (bVideo : Bool) : 0 < (r.track bVideo).pDesc.inc := by
  cases bVideo with
  | true => exact hl.videoInc
  | false => exact hl.audioInc

/-- What a packet of one of the streams can do. -/
inductive Read (r : FFmpegReader) (p : AVPacket) (bVideo : Bool) (iDts : ℤ) : FFmpegReader → Prop
  | routed (iPts : ℤ) (hpts : iDts ≤ iPts) (hbelow : ¬r.Beyond iDts) :
      Read r p bVideo iDts
        ((r.count bVideo iDts p.vConverted.length).routeFrame bVideo iDts iPts p)
  | discarded (hbeyond : r.Beyond iDts)
      (hopen : ¬((r.bMaxDurationReached || bVideo) = true ∧
        (r.audio.iStream < 0 ∨ bVideo = false))) :
      Read r p bVideo iDts ((r.count bVideo iDts p.vConverted.length).discard bVideo)
  | ended (hbeyond : r.Beyond iDts)
      (hlast : (r.bMaxDurationReached || bVideo) = true ∧
        (r.audio.iStream < 0 ∨ bVideo = false)) :
      Read r p bVideo iDts
        { (r.count bVideo iDts p.vConverted.length).discard bVideo with
          iOldDts := r.iMaxDts }.parseEnd

def ofVideo (r : FFmpegReader) (p : AVPacket) : Bool := p.stream_index = r.video.iStream

theorem parse_read (hl : r.setting.Legal) (h : r.Inv) (hp : p ∈ r.vFile)
    (hstream : p.stream_index = r.video.iStream ∨ p.stream_index = r.audio.iStream) :
    ∃ b r' iDts, r.parse p = .ok (b, r') ∧ (r.track (r.ofVideo p)).iOldDts < iDts ∧
      Read r p (r.ofVideo p) iDts r' := by
  have hconverted := (hl.converted p hp hstream).1
  have hcases : ∀ bVideo n iDts, (r.count bVideo iDts n).bMaxDurationReached =
        r.bMaxDurationReached ∧ (r.count bVideo iDts n).iMaxDts = r.iMaxDts ∧
      (r.count bVideo iDts n).audio.iStream = r.audio.iStream := by
    intro bVideo n iDts
    cases bVideo <;> exact ⟨rfl, rfl, rfl⟩
  have hafter := repaired_after (r.track (r.ofVideo p)) (track_inc hl _)
    (av_rescale_q p.dts (r.track (r.ofVideo p)).scale oTimeBase+TIMESTAMP_MIN)
  have hparse := parse.eq_1 r p
  rw [if_neg hconverted] at hparse
  dsimp only at hparse
  rw [← ofVideo] at hparse
  generalize repaired (r.track (r.ofVideo p)) _ = iDts at hparse hafter
  generalize hpts : max iDts _ = iPts at hparse
  have hle : iDts ≤ iPts := by
    rw [← hpts]
    exact le_max_left _ _
  rcases hcases (r.ofVideo p) p.vConverted.length iDts with ⟨hflag, hmax, haudio⟩
  generalize hplace : (r.count (r.ofVideo p) iDts p.vConverted.length).place (r.ofVideo p) iDts
    iPts p = res at hparse
  refine ⟨res.1, res.2, iDts, hparse, hafter, ?_⟩
  rw [← hplace]
  by_cases hbeyond : r.Beyond iDts
  · have hbeyond' : (r.count (r.ofVideo p) iDts p.vConverted.length).Beyond iDts := by
      rw [Beyond, hmax]
      exact hbeyond
    rw [place_beyond hbeyond', haudio]
    have hset : ((r.count (r.ofVideo p) iDts p.vConverted.length).discard
        (r.ofVideo p)).bMaxDurationReached = (r.bMaxDurationReached || r.ofVideo p) := by
      rw [← hflag]
      rfl
    rw [hset]
    split_ifs with hlast
    · rw [hmax]
      exact Read.ended hbeyond hlast
    · exact Read.discarded hbeyond hlast
  · have hbeyond' : ¬(r.count (r.ofVideo p) iDts p.vConverted.length).Beyond iDts := by
      rw [Beyond, hmax]
      exact hbeyond
    rw [place_below hbeyond']
    · exact Read.routed iPts hle hbeyond
    · intro hreached
      rw [hflag] at hreached
      have hvideo := h.flag.mp hreached
      have hnot : r.ofVideo p = false := by
        by_contra htrue
        rw [Bool.not_eq_false] at htrue
        rw [htrue] at hafter
        have hless : r.video.iOldDts < iDts := hafter
        exact hbeyond ⟨hvideo.1, by have := hvideo.2; omega⟩
      constructor
      · exact hnot
      · rw [haudio]
        have hindex := hl.stream_index p hp
        have hother : ¬p.stream_index = r.video.iStream := of_decide_eq_false hnot
        have hsame := hstream.resolve_left hother
        omega
    · intro hreached
      rw [hflag] at hreached
      rw [hmax]
      exact (h.flag.mp hreached).1

/-! ## Reading on, and the end -/

/-- The control packets of the streams that are there. -/
def ctrls (s : Setting) (type : PacketType) : List (PacketType × ContentType) :=
  (if s.videoStream = -1 then [] else [(type, .video)]) ++
    if s.audioStream = -1 then [] else [(type, .audio)]

theorem ctrls_type {s : Setting} {type : PacketType} {a : PacketType × ContentType}
    (h : a ∈ ctrls s type) : a.1 = type := by
  rw [ctrls, List.mem_append] at h
  rcases h with h | h
  · split_ifs at h
    · simp at h
    · rw [List.mem_singleton.mp h]
  · split_ifs at h
    · simp at h
    · rw [List.mem_singleton.mp h]

structure Open (r : FFmpegReader) : Prop where
  legal : r.setting.Legal
  inv : r.Inv
  ahead : ∀ p ∈ r.vAhead, p ∈ r.vFile
  bSchedule : r.bSchedule = true
  noEnd : ∀ q ∈ r.vRouted, isEnd q = false

/-- One end for each stream, behind everything else. -/
structure Ended (r : FFmpegReader) : Prop where
  inv : r.Inv
  bSchedule : r.bSchedule = false
  ends : ∃ vFront vEnds, r.vRouted = vFront ++ vEnds ∧ (∀ q ∈ vFront, isEnd q = false) ∧
    vEnds.map (fun q => (q.type, q.content)) = ctrls r.setting .end

theorem routeCtrl_routed (r : FFmpegReader) (bVideo : Bool) (pPckt : MediaPacket) :
    ∃ vCtrl, (r.routeCtrl bVideo pPckt).vRouted = r.vRouted ++ vCtrl ∧
      vCtrl.map (fun q => (q.type, q.content)) =
        if (r.track bVideo).iStream = -1 then [] else [(pPckt.type, content bVideo)] := by
  rw [routeCtrl]
  split_ifs
  · exact ⟨[], by simp, rfl⟩
  · exact ⟨_, rfl, rfl⟩

theorem parse_ctrl_routed (r : FFmpegReader) (type : PacketType) :
    ∃ vCtrl, (r.parse_ctrl type).vRouted = r.vRouted ++ vCtrl ∧
      vCtrl.map (fun q => (q.type, q.content)) = ctrls r.setting type := by
  rcases routeCtrl_routed r true (r.ctrlPacket type) with ⟨v, hv, hvideo⟩
  rcases routeCtrl_routed (r.routeCtrl true (r.ctrlPacket type)) false (r.ctrlPacket type)
    with ⟨w, hw, haudio⟩
  have hrouted : (r.parse_ctrl type).vRouted =
      ((r.routeCtrl true (r.ctrlPacket type)).routeCtrl false (r.ctrlPacket type)).vRouted := by
    rw [parse_ctrl]
    split_ifs <;> rfl
  have hstream : ((r.routeCtrl true (r.ctrlPacket type)).track false).iStream =
      r.audio.iStream := by
    rw [routeCtrl]
    split_ifs <;> rfl
  exists v ++ w
  constructor
  · rw [hrouted, hw, hv, List.append_assoc]
  · rw [hstream] at haudio
    rw [List.map_append, hvideo, haudio]
    rfl

/-- A control packet changes none of the fields a step depends on. -/
theorem parse_ctrl_keeps (type : PacketType) : (r.parse_ctrl type).vAhead = r.vAhead ∧
    (r.parse_ctrl type).iLoop = r.iLoop ∧ (r.parse_ctrl type).bSchedule = r.bSchedule ∧
    (r.parse_ctrl type).bMaxDurationReached = r.bMaxDurationReached ∧
    ∀ b, ((r.parse_ctrl type).track b).iOldDts = (r.track b).iOldDts := by
  rw [parse_ctrl, routeCtrl, routeCtrl]
  split_ifs <;> exact ⟨rfl, rfl, rfl, rfl, fun b => by cases b <;> rfl⟩

theorem parseEnd_ended (h : r.Inv) (hopen : ∀ q ∈ r.vRouted, isEnd q = false) :
    r.parseEnd.Ended := by
  constructor
  · exact parseEnd_inv h
  · rfl
  · rcases parse_ctrl_routed r .end with ⟨vCtrl, hrouted, hctrls⟩
    have hsetting : r.parseEnd.setting = r.setting := parseEnd_setting
    refine ⟨r.vRouted, vCtrl, hrouted, hopen, ?_⟩
    rw [hsetting]
    exact hctrls

theorem reset_noEnd (hopen : ∀ q ∈ r.vRouted, isEnd q = false) :
    ∀ q ∈ (r.parse_ctrl .reset).vRouted, isEnd q = false := by
  rcases parse_ctrl_routed r .reset with ⟨vCtrl, hrouted, hctrls⟩
  intro q hq
  rw [hrouted] at hq
  rcases List.mem_append.mp hq with hold | hnew
  · exact hopen q hold
  · have hmem : (q.type, q.content) ∈ ctrls r.setting .reset := by
      rw [← hctrls]
      exact List.mem_map_of_mem hnew
    have htype : q.type = .reset := ctrls_type hmem
    rw [isEnd, htype]
    rfl

theorem read_setting (h : Read r p bVideo iDts r') : r'.setting = r.setting := by
  cases h with
  | routed iPts hpts hbelow => exact count_setting p.vConverted.length
  | discarded hbeyond hopen => exact count_setting p.vConverted.length
  | ended hbeyond hlast => exact parseEnd_setting.trans (count_setting p.vConverted.length)

theorem read_inv (h : Read r p bVideo iDts r') (hi : r.Inv)
    (hlast : (r.track bVideo).iOldDts < iDts)
    (hconverted : p.vConverted ≠ [] ∧ ∀ q ∈ p.vConverted, q.type = .media) : r'.Inv := by
  have hsize : 0 < p.vConverted.length := List.length_pos_iff.mpr hconverted.1
  cases h with
  | routed iPts hpts hbelow =>
    exact routeFrame_inv hi hlast hbelow hpts hconverted.1 hconverted.2
  | discarded hbeyond hopen => exact discard_inv hi hsize hlast hbeyond
  | ended hbeyond hend =>
    apply parseEnd_inv
    exact inv_same (discard_inv hi hsize hlast hbeyond) rfl rfl rfl rfl rfl (fun _ => rfl)

/-- The times a packet leaves: its own for its stream, and the other stream keeps its time. -/
theorem read_times (h : Read r p bVideo iDts r') (b : Bool) :
    (r'.track b).iOldDts = if b = bVideo then iDts else (r.track b).iOldDts := by
  have hcount : ∀ n, ((r.count bVideo iDts n).track b).iOldDts =
      if b = bVideo then iDts else (r.track b).iOldDts := by
    intro n
    cases bVideo <;> cases b <;> rfl
  cases h with
  | routed iPts hpts hbelow => exact hcount p.vConverted.length
  | discarded hbeyond hopen => exact hcount p.vConverted.length
  | ended hbeyond hlast => exact ((parse_ctrl_keeps .end).2.2.2.2 b).trans (hcount p.vConverted.length)

theorem count_keeps (r : FFmpegReader) (bVideo : Bool) (iDts : ℤ) (n : ℕ) :
    (r.count bVideo iDts n).vAhead = r.vAhead ∧
    (r.count bVideo iDts n).iLoop = r.iLoop ∧ (r.count bVideo iDts n).bSchedule = r.bSchedule ∧
    (r.count bVideo iDts n).vRouted = r.vRouted := by
  cases bVideo <;> exact ⟨rfl, rfl, rfl, rfl⟩

theorem read_keeps (h : Read r p bVideo iDts r') : r'.vAhead = r.vAhead ∧ r'.iLoop = r.iLoop := by
  rcases count_keeps r bVideo iDts p.vConverted.length
    with ⟨hahead, hloop, _, _⟩
  cases h with
  | routed iPts hpts hbelow => exact ⟨hahead, hloop⟩
  | discarded hbeyond hopen => exact ⟨hahead, hloop⟩
  | ended hbeyond hlast =>
    rcases parse_ctrl_keeps (r := { (r.count bVideo iDts p.vConverted.length).discard bVideo with
      iOldDts := r.iMaxDts }) .end with ⟨hahead', hloop', _⟩
    exact ⟨hahead'.trans hahead, hloop'.trans hloop⟩

/-- After a packet the reader goes on, or it has ended. -/
theorem read_open (h : Read r p bVideo iDts r') (ho : r.Open)
    (hlast : (r.track bVideo).iOldDts < iDts)
    (hconverted : p.vConverted ≠ [] ∧ ∀ q ∈ p.vConverted, q.type = .media) :
    r'.Open ∨ r'.Ended := by
  have hinv := read_inv h ho.inv hlast hconverted
  have hsize : 0 < p.vConverted.length := List.length_pos_iff.mpr hconverted.1
  have hsetting := read_setting h
  have hahead := (read_keeps h).1
  rcases count_keeps r bVideo iDts p.vConverted.length
    with ⟨_, _, hschedule, hrouted⟩
  have hfile : r'.vFile = r.vFile := congrArg Setting.vFile hsetting
  have hlegal : r'.setting.Legal := by
    rw [hsetting]
    exact ho.legal
  have hmem : ∀ q ∈ r'.vAhead, q ∈ r'.vFile := by
    rw [hahead, hfile]
    exact ho.ahead
  cases h with
  | routed iPts hpts hbelow =>
    refine Or.inl ⟨hlegal, hinv, hmem, hschedule.trans ho.bSchedule, ?_⟩
    intro q hq
    rcases List.mem_append.mp hq with hold | hnew
    · rw [hrouted] at hold
      exact ho.noEnd q hold
    · rcases stamped_mem hnew with ⟨_, _, q', hq', htype⟩
      rw [isEnd, htype, hconverted.2 q' hq']
      rfl
  | discarded hbeyond hopen =>
    refine Or.inl ⟨hlegal, hinv, hmem, hschedule.trans ho.bSchedule, ?_⟩
    show ∀ q ∈ (r.count bVideo iDts p.vConverted.length).vRouted, isEnd q = false
    rw [hrouted]
    exact ho.noEnd
  | ended hbeyond hend =>
    right
    apply parseEnd_ended
    · exact inv_same (discard_inv ho.inv hsize hlast hbeyond) rfl rfl rfl rfl rfl
        (fun _ => rfl)
    · show ∀ q ∈ (r.count bVideo iDts p.vConverted.length).vRouted, isEnd q = false
      rw [hrouted]
      exact ho.noEnd

/-! ## Runs -/

theorem ahead_open {ps : List AVPacket} (ho : r.Open) (hahead : r.vAhead = p::ps) :
    ({ r with vAhead := ps } : FFmpegReader).Open ∧ p ∈ r.vFile := by
  constructor
  · refine ⟨ho.legal, ?_, ?_, ho.bSchedule, ho.noEnd⟩
    · exact inv_same ho.inv rfl rfl rfl rfl rfl (fun _ => rfl)
    · intro q hq
      apply ho.ahead q
      rw [hahead]
      exact List.mem_cons_of_mem p hq
  · apply ho.ahead p
    rw [hahead]
    exact List.mem_cons_self

/-- The steps of a reader that has not ended. -/
inductive Step (r : FFmpegReader) : FFmpegReader → Prop
  | again (hempty : r.vAhead = []) (iLoop : ℤ)
      (hloop : r.loop < 0 ∧ iLoop = r.iLoop ∨ r.iLoop < r.loop ∧ iLoop = r.iLoop+1) :
      Step r { r.parse_ctrl .reset with vAhead := r.vFile, iLoop := iLoop }
  | finish (hempty : r.vAhead = []) (hloop : 0 ≤ r.loop ∧ r.loop ≤ r.iLoop) :
      Step r { r with iLoop := r.iLoop+1 }.parseEnd
  | other (q : AVPacket) (qs : List AVPacket) (hahead : r.vAhead = q::qs)
      (hstream : ¬(q.stream_index = r.video.iStream ∨ q.stream_index = r.audio.iStream)) :
      Step r { r with vAhead := qs }
  | read (q : AVPacket) (qs : List AVPacket) (hahead : r.vAhead = q::qs)
      (hstream : q.stream_index = r.video.iStream ∨ q.stream_index = r.audio.iStream)
      (iDts : ℤ) (hlast : (r.track (r.ofVideo q)).iOldDts < iDts) (after : FFmpegReader)
      (hread : Read { r with vAhead := qs } q (r.ofVideo q) iDts after) : Step r after

theorem doStep_step (ho : r.Open) : ∃ b r', r.doStep = .ok (b, r') ∧ Step r r' := by
  rw [doStep]
  cases hahead : r.vAhead with
  | nil =>
    dsimp only
    rw [rewind]
    by_cases hforever : r.loop < 0
    · rw [if_pos hforever]
      exact ⟨true, _, rfl, Step.again hahead _
        (Or.inl ⟨hforever, (parse_ctrl_keeps .reset).2.1⟩)⟩
    · rw [if_neg hforever]
      by_cases hmore : r.iLoop < r.loop
      · rw [if_pos hmore]
        exact ⟨true, _, rfl, Step.again hahead _ (Or.inr ⟨hmore, rfl⟩)⟩
      · rw [if_neg hmore]
        exact ⟨false, _, rfl, Step.finish hahead ⟨by omega, by omega⟩⟩
  | cons p ps =>
    dsimp only
    by_cases hstream : p.stream_index = r.video.iStream ∨ p.stream_index = r.audio.iStream
    · rw [if_pos hstream]
      rcases ahead_open ho hahead with ⟨ho', hmem⟩
      rcases parse_read (p := p) ho'.legal ho'.inv hmem hstream
        with ⟨b, r', iDts, hparse, hlast, hread⟩
      exact ⟨b, r', hparse, Step.read p ps hahead hstream iDts hlast r' hread⟩
    · rw [if_neg hstream]
      exact ⟨true, _, rfl, Step.other p ps hahead hstream⟩

theorem step_setting (h : Step r r') : r'.setting = r.setting := by
  cases h with
  | again hempty iLoop hloop => exact parse_ctrl_setting .reset
  | finish hempty hloop => exact parseEnd_setting
  | other q qs hahead hstream => rfl
  | read q qs hahead hstream iDts hlast after hread =>
    exact read_setting (r := { r with vAhead := qs }) hread

theorem step_open (h : Step r r') (ho : r.Open) : r'.Open ∨ r'.Ended := by
  cases h with
  | again hempty iLoop hloop =>
    rcases parse_ctrl_keeps (r := r) .reset with ⟨_, _, hschedule, _, _⟩
    have hsetting := parse_ctrl_setting (r := r) .reset
    have hfile : (r.parse_ctrl .reset).vFile = r.vFile := congrArg Setting.vFile hsetting
    refine Or.inl ⟨?_, ?_, ?_, hschedule.trans ho.bSchedule, reset_noEnd ho.noEnd⟩
    · show (r.parse_ctrl .reset).setting.Legal
      rw [hsetting]
      exact ho.legal
    · exact inv_same (parse_ctrl_inv ho.inv (by decide)) rfl rfl rfl rfl rfl (fun _ => rfl)
    · intro q hq
      show q ∈ (r.parse_ctrl .reset).vFile
      rw [hfile]
      exact hq
  | finish hempty hloop =>
    right
    exact parseEnd_ended (inv_same ho.inv rfl rfl rfl rfl rfl (fun _ => rfl)) ho.noEnd
  | other q qs hahead hstream => exact Or.inl (ahead_open ho hahead).1
  | read q qs hahead hstream iDts hlast after hread =>
    rcases ahead_open ho hahead with ⟨ho', hmem⟩
    exact read_open hread ho' hlast (ho.legal.converted _ hmem hstream)

theorem steps_open (n : ℕ) (ho : r.Open ∨ r.Ended) :
    ∃ r', steps n r = .ok r' ∧ r'.setting = r.setting ∧ (r'.Open ∨ r'.Ended) := by
  induction n generalizing r with
  | zero => exact ⟨r, rfl, rfl, ho⟩
  | succ n ih =>
    rw [steps]
    rcases ho with ho | he
    · rcases doStep_step ho with ⟨b, r', hrun, hstep⟩
      rcases ih (step_open hstep ho) with ⟨r'', hrest, hsetting, hstate⟩
      refine ⟨r'', ?_, hsetting.trans (step_setting hstep), hstate⟩
      rw [if_pos ho.bSchedule]
      simp only [hrun, bind, Except.bind]
      exact hrest
    · refine ⟨r, ?_, rfl, Or.inr he⟩
      rw [if_neg (by rw [he.bSchedule]; decide)]

/-! ## The end is reached -/

def Ends (r : FFmpegReader) : Prop := ∃ n r', steps n r = .ok r' ∧ r'.bSchedule = false

theorem ends_step (ho : r.Open) (h : ∀ r', Step r r' → r'.Open → r'.Ends) : r.Ends := by
  rcases doStep_step ho with ⟨b, r', hrun, hstep⟩
  have hnext : r'.Ends := by
    rcases step_open hstep ho with ho' | he
    · exact h r' hstep ho'
    · exact ⟨0, r', rfl, he.bSchedule⟩
  rcases hnext with ⟨n, r'', hrest, hend⟩
  refine ⟨n+1, r'', ?_, hend⟩
  rw [steps, if_pos ho.bSchedule]
  simp only [hrun, bind, Except.bind]
  exact hrest

/-- Over the packets `ps` no time goes back, and a stream with a packet among them goes on. -/
def Grown (r r' : FFmpegReader) (ps : List AVPacket) : Prop :=
  ∀ b, (r.track b).iOldDts ≤ (r'.track b).iOldDts ∧
    ((∃ p ∈ ps, p.stream_index = (r.track b).iStream) →
      (r.track b).iOldDts < (r'.track b).iOldDts)

theorem ofVideo_track (hl : r.setting.Legal) (hp : p ∈ r.vFile) {b : Bool}
    (hstream : p.stream_index = (r.track b).iStream) : b = r.ofVideo p := by
  cases b with
  | true => exact (decide_eq_true hstream).symm
  | false =>
    symm
    apply decide_eq_false
    intro hvideo
    have hindex := hl.stream_index p hp
    have hvideo' : 0 ≤ r.setting.videoStream := by
      rw [hvideo] at hindex
      exact hindex
    exact hl.distinct hvideo' (hvideo.symm.trans hstream)

theorem track_iStream (h : r'.setting = r.setting) (b : Bool) :
    (r'.track b).iStream = (r.track b).iStream := by
  cases b with
  | true => exact congrArg Setting.videoStream h
  | false => exact congrArg Setting.audioStream h

/-- To the end of the file, or the reader ends in front of it. -/
theorem ends_pass (ps : List AVPacket) (hahead : r.vAhead = ps) (ho : r.Open)
    (hnext : ∀ r', r'.Open → r'.setting = r.setting → r'.vAhead = [] → r'.iLoop = r.iLoop →
      Grown r r' ps → r'.Ends) : r.Ends := by
  induction ps generalizing r with
  | nil =>
    apply hnext r ho rfl hahead rfl
    intro b
    exact ⟨le_rfl, fun ⟨p, hp, _⟩ => absurd hp (by simp)⟩
  | cons p ps ih =>
    apply ends_step ho
    intro r₁ hstep ho₁
    have hsetting := step_setting hstep
    cases hstep with
    | again hempty iLoop hloop => simp [hempty] at hahead
    | finish hempty hloop => simp [hempty] at hahead
    | other q qs hahead' hstream =>
      rcases List.cons.inj (hahead'.symm.trans hahead) with ⟨hq, hqs⟩
      apply ih hqs ho₁
      intro r' ho' hsame hempty hcount hgrown
      apply hnext r' ho' hsame hempty hcount
      intro b
      refine ⟨(hgrown b).1, ?_⟩
      rintro ⟨p', hp', hp'stream⟩
      rcases List.mem_cons.mp hp' with heq | hmem
      · exfalso
        apply hstream
        rw [hq, ← heq, hp'stream]
        cases b
        · exact Or.inr rfl
        · exact Or.inl rfl
      · exact (hgrown b).2 ⟨p', hmem, hp'stream⟩
    | read q qs hahead' hstream iDts hlast after hread =>
      rcases List.cons.inj (hahead'.symm.trans hahead) with ⟨hq, hqs⟩
      rcases read_keeps hread with ⟨hrest, hloop⟩
      have hmem := (ahead_open ho hahead').2
      have htimes := read_times hread
      apply ih (hrest.trans hqs) ho₁
      intro r' ho' hsame hempty hcount hgrown
      apply hnext r' ho' (hsame.trans hsetting) hempty (hcount.trans hloop)
      intro b
      have hle : (r.track b).iOldDts ≤ (r₁.track b).iOldDts ∧
          (b = r.ofVideo q → (r.track b).iOldDts < (r₁.track b).iOldDts) := by
        rw [htimes b]
        by_cases hb : b = r.ofVideo q
        · rw [if_pos hb, hb]
          exact ⟨hlast.le, fun _ => hlast⟩
        · rw [if_neg hb]
          exact ⟨le_rfl, fun h => absurd h hb⟩
      refine ⟨hle.1.trans (hgrown b).1, ?_⟩
      rintro ⟨p', hp', hp'stream⟩
      rcases List.mem_cons.mp hp' with heq | hmem'
      · rw [heq, ← hq] at hp'stream
        exact (hle.2 (ofVideo_track ho.legal hmem hp'stream)).trans_le (hgrown b).1
      · rw [← track_iStream hsetting b] at hp'stream
        exact hle.1.trans_lt ((hgrown b).2 ⟨p', hmem', hp'stream⟩)

/-- A file that is played a number of times. -/
theorem ends_finite (k : ℕ) (ho : r.Open) (hloop : 0 ≤ r.loop)
    (hk : (r.loop-r.iLoop).toNat < k) : r.Ends := by
  induction k generalizing r with
  | zero => omega
  | succ k ih =>
    apply ends_pass r.vAhead rfl ho
    intro r₁ ho₁ hsetting hempty hcount _
    have hsame : r₁.loop = r.loop := congrArg Setting.loop hsetting
    apply ends_step ho₁
    intro r₂ hstep ho₂
    have hkept : r₂.loop = r₁.loop := congrArg Setting.loop (step_setting hstep)
    cases hstep with
    | again _ iLoop hmore =>
      apply ih ho₂
      · rw [hkept, hsame]
        exact hloop
      · rw [hkept, hsame]
        show (r.loop-iLoop).toNat < k
        omega
    | finish _ hlast => exact absurd ho₂.bSchedule Bool.false_ne_true
    | other q qs hahead hstream => simp [hempty] at hahead
    | read q qs hahead hstream iDts hlast after hread => simp [hempty] at hahead

/-! ## A file that is played again and again -/

/-- The stream whose packets end the reader. -/
def lastTrack (r : FFmpegReader) : Bool := r.audio.iStream < 0

/-- The video has passed the maximum, and the audio too if there is any. -/
def Ripe (r : FFmpegReader) : Prop :=
  r.bMaxDurationReached = true ∧ r.Beyond (r.track r.lastTrack).iOldDts

theorem lastTrack_same (h : r'.setting = r.setting) : r'.lastTrack = r.lastTrack := by
  have haudio : r'.audio.iStream = r.audio.iStream := congrArg Setting.audioStream h
  rw [lastTrack, lastTrack, haudio]

theorem beyond_later (h : r.Beyond iDts) {iLater : ℤ} (hle : iDts ≤ iLater) : r.Beyond iLater :=
  ⟨h.1, h.2.trans hle⟩

/-- The next packet of the last stream is the end. -/
theorem read_ripe (ho : r.Open) (hr : r.Ripe) (hp : p ∈ r.vFile)
    (hstream : p.stream_index = r.video.iStream ∨ p.stream_index = r.audio.iStream)
    (hlast : (r.track (r.ofVideo p)).iOldDts < iDts) (h : Read r p (r.ofVideo p) iDts r')
    (ho' : r'.Open) : r'.Ripe ∧ p.stream_index ≠ (r.track r.lastTrack).iStream := by
  have hindex := ho.legal.stream_index p hp
  have hvideo := ho.inv.flag.mp hr.1
  have hbeyond : r.Beyond iDts := by
    cases hof : r.ofVideo p with
    | true =>
      rw [hof] at hlast
      exact beyond_later hvideo hlast.le
    | false =>
      have hother : ¬p.stream_index = r.video.iStream := of_decide_eq_false hof
      have hsame := hstream.resolve_left hother
      have haudio : r.lastTrack = false := decide_eq_false (by omega)
      have hold := hr.2
      rw [haudio] at hold
      rw [hof] at hlast
      exact beyond_later hold hlast.le
  have htimes := read_times h
  have hsetting := read_setting h
  cases h with
  | routed iPts hpts hbelow => exact absurd hbeyond hbelow
  | ended hbeyond hend => exact absurd ho'.bSchedule Bool.false_ne_true
  | discarded hbeyond hopen =>
    rw [hr.1, Bool.true_or] at hopen
    have haudio : ¬r.audio.iStream < 0 := fun hnone => hopen ⟨rfl, Or.inl hnone⟩
    have hof : r.ofVideo p = true := by
      by_contra hfalse
      exact hopen ⟨rfl, Or.inr (by simpa using hfalse)⟩
    have hlastTrack : r.lastTrack = false := decide_eq_false haudio
    constructor
    · constructor
      · show ((r.count _ iDts _).bMaxDurationReached || r.ofVideo p) = true
        rw [hof, Bool.or_true]
      · rw [lastTrack_same hsetting, hlastTrack, htimes false, hof, if_neg (by decide)]
        have hold := hr.2
        rw [hlastTrack] at hold
        have hmax : ((r.count (r.ofVideo p) iDts p.vConverted.length).discard
            (r.ofVideo p)).iMaxDts = r.iMaxDts := congrArg Setting.iMaxDts hsetting
        rw [Beyond, ← hof, hmax]
        exact hold
    · rw [hlastTrack]
      intro hsame
      have hfalse := ofVideo_track ho.legal hp (b := false) hsame
      rw [hof] at hfalse
      exact absurd hfalse (by decide)

theorem ends_ripe (ps : List AVPacket) (hahead : r.vAhead = ps) (ho : r.Open) (hr : r.Ripe)
    (hmem : ∃ p ∈ ps, p.stream_index = (r.track r.lastTrack).iStream) : r.Ends := by
  induction ps generalizing r with
  | nil =>
    rcases hmem with ⟨p, hp, _⟩
    exact absurd hp (by simp)
  | cons p ps ih =>
    apply ends_step ho
    intro r' hstep ho'
    have hsetting := step_setting hstep
    cases hstep with
    | again hempty iLoop hloop => simp [hempty] at hahead
    | finish hempty hloop => simp [hempty] at hahead
    | other q qs hahead' hstream =>
      rcases List.cons.inj (hahead'.symm.trans hahead) with ⟨hq, hqs⟩
      apply ih hqs ho'
      · exact hr
      · rcases hmem with ⟨p', hp', hlast⟩
        rcases List.mem_cons.mp hp' with heq | htail
        · exfalso
          apply hstream
          rw [hq, ← heq, hlast]
          cases r.lastTrack
          · exact Or.inr rfl
          · exact Or.inl rfl
        · exact ⟨p', htail, hlast⟩
    | read q qs hahead' hstream iDts hlast after hread =>
      rcases List.cons.inj (hahead'.symm.trans hahead) with ⟨hq, hqs⟩
      rcases ahead_open ho hahead' with ⟨ho₀, hfile⟩
      rcases read_ripe (r := { r with vAhead := qs }) ho₀ hr hfile hstream hlast hread ho'
        with ⟨hr', hother⟩
      apply ih ((read_keeps hread).1.trans hqs) ho' hr'
      rcases hmem with ⟨p', hp', hp'last⟩
      rcases List.mem_cons.mp hp' with heq | htail
      · exfalso
        apply hother
        rw [hq, ← heq]
        exact hp'last
      · refine ⟨p', htail, ?_⟩
        rw [lastTrack_same hsetting, track_iStream hsetting]
        exact hp'last

end Sirannon.FFmpegReading.FFmpegReader
