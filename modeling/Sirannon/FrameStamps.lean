import Sirannon.FrameTranscoding

/-!
# Frames through both delay lines

While the decoder takes every packet, its queue of time stamps is empty between
the frames, and the encoder's queue holds what is kept of them. The drain then
puts in one picture for each frame that is still missing.
-/

set_option autoImplicit false

namespace Sirannon.Transcoding
open Bits Media Thinning

structure Tracks (l : DelayLines) (o : Settings) (bKnown : Bool) (fs : List CompleteFrame)
    (s : TranscoderVideo) : Prop where
  vBuffer2 : s.vBuffer2 = []
  decoder : s.pDecoderCtx.getD 0 = fs.length
  fresh : s.pDecoderCtx = none → fs = []
  queue : s.vDecodeDTS = []
  frac : 0 < o.iReduce.num → s.iFrac = carry o.iReduce.num o.iReduce.den (started o fs).length
  frames : s.iFrames = (keptStamps o fs).length
  decoded : s.iDecoded = late l o fs
  coding : TranscoderVideo.Coding l bKnown (keptStamps o fs) (late l o fs) s

variable {l : DelayLines} {o : Settings} {bKnown : Bool} {fs : List CompleteFrame} {f : CompleteFrame}

theorem late_le : late l o fs ≤ (keptStamps o fs).length := by
  rw [late]
  omega

theorem kept_nil : keptStamps o [] = [] := by
  rw [keptStamps, Reduction.keep]
  split_ifs
  · rfl
  · rfl

theorem bounded_snoc : Bounded o (fs++[f]) ↔ Bounded o fs ∧ (¬f.dts < o.iMinDts →
    0 < o.iReduce.num →
      carry o.iReduce.num o.iReduce.den (started o fs).length+o.iReduce.num < 2^31) := by
  simp only [Bounded, started_snoc, List.length_append]
  constructor
  · intro h
    refine ⟨fun hnum k hk => h hnum k (by omega), fun hearly hnum => h hnum _ ?_⟩
    rw [if_neg hearly, List.length_singleton]
    omega
  · rintro ⟨h, hlast⟩ hnum k hk
    by_cases hold : k < (started o fs).length
    · exact h hnum k hold
    · by_cases hearly : f.dts < o.iMinDts
      · rw [if_pos hearly, List.length_nil] at hk
        omega
      · rw [if_neg hearly, List.length_singleton] at hk
        have hk : k = (started o fs).length := by omega
        rw [hk]
        exact hlast hearly hnum

namespace TranscoderVideo

variable {s s' : TranscoderVideo} {p : MediaPacket}

theorem tracks_new (l : DelayLines) (o : Settings) (bKnown : Bool) :
    Tracks l o bKnown [] (new bKnown) := by
  have hlate : late l o [] = 0 := late_early (Nat.zero_le _)
  constructor
  · rfl
  · rfl
  · exact fun _ => rfl
  · rfl
  · intro _
    rw [carry]
    simp [started, new]
  · rw [kept_nil]
    rfl
  · rw [hlate]
    rfl
  · rw [hlate, kept_nil]
    exact coding_new l bKnown

theorem balanced_new (l : DelayLines) (bKnown : Bool) : Balanced l [] (new bKnown) where
  vBuffer2 := rfl
  decoder := rfl
  fresh := fun _ => ⟨rfl, rfl⟩
  least := le_refl _
  missing := fun h => (h fun i f hf => by simp at hf).elim

theorem opened_tracks (h : Tracks l o bKnown fs s) : Tracks l o bKnown fs s.opened := by
  rw [opened]
  by_cases hnone : s.pDecoderCtx = none
  · have hfs := h.fresh hnone
    have hlate : late l o fs = 0 := late_early (by rw [hfs]; exact Nat.zero_le _)
    have hcoding := h.coding
    rw [hlate] at hcoding
    rw [if_pos hnone]
    constructor
    · exact h.vBuffer2
    · rw [hfs]
      rfl
    · exact fun _ => hfs
    · exact h.queue
    · exact h.frac
    · exact h.frames
    · rw [hlate]
      rfl
    · rw [hlate]
      refine ⟨hcoding.calls, ?_, hcoding.iFrame, hcoding.queue, hcoding.sent, hcoding.within⟩
      rw [Nat.zero_sub]
      rfl
  · rw [if_neg hnone]
    exact h

/-- A frame that is kept. -/
theorem kept_tracks (hbuffer : s.vBuffer2 = []) (hdecoder : s.pDecoderCtx = some (fs.length+1))
    (hqueue : s.vDecodeDTS = [])
    (hfrac : 0 < o.iReduce.num →
      s.iFrac = carry o.iReduce.num o.iReduce.den (started o (fs++[f])).length)
    (hframes : s.iFrames = (keptStamps o fs).length+1) (hdecoded : s.iDecoded = late l o fs)
    (hcoding : Coding l bKnown (keptStamps o fs) (late l o fs) s) (hk : KeptNow o fs f)
    (hdesc : p.desc ≠ none) :
    ∃ s', s.kept l.codecs o p f.dts (decide (l.d ≤ fs.length)) = .ok s' ∧
      Tracks l o bKnown (fs++[f]) s' := by
  have hlength : (fs++[f]).length = fs.length+1 := by rw [List.length_append]; rfl
  have hstamps : (keptStamps o (fs++[f])).length = (keptStamps o fs).length+1 := by
    rw [kept_now hk, List.length_append]
    rfl
  have hpush := coding_push hcoding f.dts
  rw [← kept_now hk] at hpush
  have hle : late l o fs ≤ (keptStamps o fs).length := late_le
  rw [kept]
  by_cases hfinished : l.d ≤ fs.length
  · rw [decide_eq_true hfinished, if_pos rfl]
    have hnext : Coding l bKnown (keptStamps o (fs++[f])) (late l o fs)
        { s with iDecoded := s.iDecoded+1, vEncodeDTS := s.vEncodeDTS ++ [f.dts] } :=
      ⟨hpush.calls, hpush.iEncoded, hpush.iFrame, hpush.queue, hpush.sent, hpush.within⟩
    obtain ⟨s', hrun, hdone, hbeside⟩ :=
      encode_coding (o := o) (p := p) hnext (by omega) fun _ _ => hdesc
    rw [← late_kept hfinished hk] at hdone
    refine ⟨s', hrun, ?_⟩
    constructor
    · exact hbeside.vBuffer2.trans hbuffer
    · rw [hbeside.pDecoderCtx, hlength]
      show s.pDecoderCtx.getD 0 = _
      rw [hdecoder]
      rfl
    · intro hnone
      rw [hbeside.pDecoderCtx] at hnone
      change s.pDecoderCtx = none at hnone
      rw [hdecoder] at hnone
      cases hnone
    · exact hbeside.vDecodeDTS.trans hqueue
    · intro hnum
      exact hbeside.iFrac.trans (hfrac hnum)
    · rw [hstamps]
      exact hbeside.iFrames.trans hframes
    · rw [late_kept hfinished hk]
      refine hbeside.iDecoded.trans ?_
      show s.iDecoded+1 = _
      rw [hdecoded]
      rfl
    · exact hdone
  · rw [decide_eq_false hfinished]
    have hsame : late l o (fs++[f]) = late l o fs := by
      rw [late_early (by omega), late_early (by omega)]
    refine ⟨_, rfl, ?_⟩
    constructor
    · exact hbuffer
    · rw [hlength]
      show s.pDecoderCtx.getD 0 = _
      rw [hdecoder]
      rfl
    · intro hnone
      change s.pDecoderCtx = none at hnone
      rw [hdecoder] at hnone
      cases hnone
    · exact hqueue
    · exact hfrac
    · rw [hstamps]
      exact hframes
    · rw [hsame]
      exact hdecoded
    · rw [hsame]
      exact hpush

/-- A frame that is too early or dropped. -/
theorem dropped_tracks (h : Tracks l o bKnown fs s) (hk : ¬KeptNow o fs f) {x : ℤ} {n : ℤ}
    (hx : 0 < o.iReduce.num →
      x = carry o.iReduce.num o.iReduce.den (started o (fs++[f])).length) (hn : n = s.iFrames) :
    Tracks l o bKnown (fs++[f])
      { s with iFrac := x, iFrames := n, vDecodeDTS := [], pDecoderCtx := some (fs.length+1) } := by
  have hcoding := h.coding
  constructor
  · exact h.vBuffer2
  · rw [List.length_append]
    rfl
  · intro hnone
    cases hnone
  · rfl
  · exact hx
  · rw [not_kept_now hk]
    exact hn.trans h.frames
  · rw [late_dropped hk]
    exact h.decoded
  · rw [late_dropped hk, not_kept_now hk]
    exact ⟨hcoding.calls, hcoding.iEncoded, hcoding.iFrame, hcoding.queue, hcoding.sent,
      hcoding.within⟩

theorem decode_taken (h : Tracks l o bKnown fs s) (ht : Taken l fs.length f) {g : MediaPacket}
    (hdts : g.dts = f.dts) (hsize : g.size = f.size) :
    s.decode l.codecs o g = decoded l.codecs o
      { s with iFrames := s.iFrames+1, vDecodeDTS := [f.dts], pDecoderCtx := some (fs.length+1) } g
      (decide (l.d ≤ fs.length)) := by
  have hstatus : (l.codecs.decode fs.length g.size).1 = (f.size : ℤ) := by
    rw [hsize]
    exact if_neg ht.2
  have hpos : 0 < f.size := Nat.pos_of_ne_zero ht.1
  rw [decode, h.decoder, hstatus, if_neg (by omega), if_neg (by omega), h.queue, hdts]
  rfl

theorem frame_tracks (fuel : ℕ) (h : Tracks l o bKnown fs s) (ht : Taken l fs.length f)
    (hb : ¬f.dts < o.iMinDts → 0 < o.iReduce.num →
      carry o.iReduce.num o.iReduce.den (started o fs).length+o.iReduce.num < 2^31) :
    ∃ s', run l.codecs o fuel f.packets s = .ok s' ∧ Tracks l o bKnown (fs++[f]) s' := by
  obtain ⟨g, hdts, hsize, hdesc, hframe⟩ := run_frame (c := l.codecs) (o := o) fuel f h.vBuffer2
  have hopen := opened_tracks h
  have hcoding := hopen.coding
  have hframes := hopen.frames
  have hafter : ¬f.dts < o.iMinDts → (started o (fs++[f])).length = (started o fs).length+1 := by
    intro hearly
    rw [started_snoc, if_neg hearly, List.length_append]
    rfl
  rw [hframe, decode_taken hopen ht hdts hsize, decoded]
  dsimp only
  rw [hdts]
  by_cases hearly : f.dts < o.iMinDts
  · rw [if_pos hearly]
    have hk : ¬KeptNow o fs f := fun hk => hk.1 hearly
    have hsame : started o (fs++[f]) = started o fs := by
      rw [started_snoc, if_pos hearly, List.append_nil]
    refine ⟨_, rfl, ?_⟩
    apply dropped_tracks hopen hk
    · rw [hsame]
      exact hopen.frac
    · ring
  · rw [if_neg hearly, reduce]
    by_cases hnum : 0 < o.iReduce.num
    · have hfrac := hopen.frac hnum
      have hbound := hb hearly hnum
      have hkeeps := keeps_iff hnum o.iReduce.le (started o fs).length
      rw [if_pos hnum]
      dsimp only
      rw [hfrac, if_neg (by omega)]
      by_cases hkeep : Keeps o.iReduce.num o.iReduce.den (started o fs).length
      · rw [if_pos (hkeeps.1 hkeep)]
        apply kept_tracks (s := { s.opened with
          iFrames := s.opened.iFrames+1
          vDecodeDTS := []
          pDecoderCtx := some (fs.length+1)
          iFrac := (carry o.iReduce.num o.iReduce.den (started o fs).length+o.iReduce.num)%
            o.iReduce.den })
        · exact hopen.vBuffer2
        · rfl
        · rfl
        · intro _
          rw [hafter hearly]
          exact carry_succ _
        · show s.opened.iFrames+1 = _
          rw [hframes]
        · exact hopen.decoded
        · exact ⟨hcoding.calls, hcoding.iEncoded, hcoding.iFrame, hcoding.queue, hcoding.sent,
            hcoding.within⟩
        · exact ⟨hearly, fun _ => hkeep⟩
        · exact hdesc
      · rw [if_neg (fun hle => hkeep (hkeeps.2 hle))]
        refine ⟨_, rfl, ?_⟩
        apply dropped_tracks hopen fun hk => hkeep (hk.2 hnum)
        · intro _
          rw [hafter hearly]
          exact carry_dropped hnum o.iReduce.le hkeep
        · ring
    · rw [if_neg hnum]
      apply kept_tracks (s := { s.opened with
        iFrames := s.opened.iFrames+1
        vDecodeDTS := []
        pDecoderCtx := some (fs.length+1) })
      · exact hopen.vBuffer2
      · rfl
      · rfl
      · exact fun h => absurd h hnum
      · show s.opened.iFrames+1 = _
        rw [hframes]
      · exact hopen.decoded
      · exact ⟨hcoding.calls, hcoding.iEncoded, hcoding.iFrame, hcoding.queue, hcoding.sent,
          hcoding.within⟩
      · exact ⟨hearly, fun h => absurd h hnum⟩
      · exact hdesc

theorem frame_bounded (fuel : ℕ) (h : Tracks l o bKnown fs s) (ht : Taken l fs.length f)
    (hrun : run l.codecs o fuel f.packets s = .ok s') (hearly : ¬f.dts < o.iMinDts)
    (hnum : 0 < o.iReduce.num) :
    carry o.iReduce.num o.iReduce.den (started o fs).length+o.iReduce.num < 2^31 := by
  obtain ⟨g, hdts, hsize, -, hframe⟩ := run_frame (c := l.codecs) (o := o) fuel f h.vBuffer2
  have hopen := opened_tracks h
  by_contra hover
  rw [hframe, decode_taken hopen ht hdts hsize, decoded] at hrun
  dsimp only at hrun
  rw [hdts, if_neg hearly, reduce, if_pos hnum] at hrun
  dsimp only at hrun
  rw [hopen.frac hnum, if_pos (by omega)] at hrun
  cases hrun

/-! ## All frames -/

theorem frames_snoc (fs : List CompleteFrame) (f : CompleteFrame) :
    (fs++[f]).flatMap CompleteFrame.packets = fs.flatMap CompleteFrame.packets ++ f.packets := by
  rw [List.flatMap_append, List.flatMap_singleton]

theorem frames_tracks (bKnown : Bool) (fuel : ℕ) (ht : AllTaken l fs) (hb : Bounded o fs) :
    ∃ s, run l.codecs o fuel (fs.flatMap CompleteFrame.packets) (new bKnown) = .ok s ∧
      Tracks l o bKnown fs s := by
  induction fs using List.reverseRecOn with
  | nil => exact ⟨new bKnown, rfl, tracks_new l o bKnown⟩
  | append_singleton fs f ih =>
    obtain ⟨hbefore, hlast⟩ := allTaken_snoc.1 ht
    obtain ⟨hbounds, hbound⟩ := bounded_snoc.1 hb
    obtain ⟨s, hrun, h⟩ := ih hbefore hbounds
    obtain ⟨s', hframe, h'⟩ := frame_tracks fuel h hlast hbound
    refine ⟨s', ?_, h'⟩
    rw [frames_snoc, run_append, hrun]
    exact hframe

theorem run_append_ok {c : Codecs} {fuel : ℕ} {ps qs : List MediaPacket}
    (h : run c o fuel (ps++qs) s = .ok s') :
    ∃ t, run c o fuel ps s = .ok t ∧ run c o fuel qs t = .ok s' := by
  rw [run_append] at h
  cases hrun : run c o fuel ps s with
  | error e =>
    rw [hrun] at h
    cases h
  | ok t =>
    rw [hrun] at h
    exact ⟨t, rfl, h⟩

theorem frames_bounded {fuel : ℕ} (ht : AllTaken l fs)
    (hrun : run l.codecs o fuel (fs.flatMap CompleteFrame.packets) (new bKnown) = .ok s) :
    Bounded o fs := by
  induction fs using List.reverseRecOn generalizing s with
  | nil =>
    intro _ k hk
    simp [started] at hk
  | append_singleton fs f ih =>
    obtain ⟨hbefore, hlast⟩ := allTaken_snoc.1 ht
    rw [frames_snoc] at hrun
    obtain ⟨t, hfront, hframe⟩ := run_append_ok hrun
    have hbounds := ih hbefore hfront
    obtain ⟨same, hsame, h⟩ := frames_tracks bKnown fuel hbefore hbounds
    rw [hfront] at hsame
    cases hsame
    exact bounded_snoc.2 ⟨hbounds, fun hearly hnum => frame_bounded fuel h hlast hframe hearly hnum⟩

theorem frames_balanced {fuel : ℕ}
    (hrun : run l.codecs o fuel (fs.flatMap CompleteFrame.packets) (new bKnown) = .ok s) :
    Balanced l fs s := by
  induction fs using List.reverseRecOn generalizing s with
  | nil =>
    cases hrun
    exact balanced_new l bKnown
  | append_singleton fs f ih =>
    rw [frames_snoc] at hrun
    obtain ⟨t, hfront, hframe⟩ := run_append_ok hrun
    exact frame_balanced (ih hfront) hframe

/-! ## The end -/

theorem run_end (c : Codecs) (fuel : ℕ) (p : MediaPacket) (s : TranscoderVideo) :
    run c o fuel [{ p with type := .end }] s = receive_ctrl c o fuel s { p with type := .end } := by
  rw [run, receive, if_neg (by simp)]
  cases receive_ctrl c o fuel s { p with type := .end } with
  | error e => rfl
  | ok t => rfl

/-- Both drains, and the end packet behind them. -/
theorem receive_end {c : Codecs} {fuel : ℕ} (hp : p.type = .end) (hrun : s.receive_ctrl c o fuel p = .ok s') :
    ∃ t u last, drainDecoder c o p fuel s = .ok t ∧ drainEncoder c o p fuel t = .ok u ∧
      s'.routed = u.routed ++ [last] ∧ last.type = .end := by
  rw [receive_ctrl] at hrun
  cases hfirst : drainDecoder c o p fuel s with
  | error e =>
    rw [hfirst] at hrun
    cases hrun
  | ok t =>
    rw [hfirst] at hrun
    cases hsecond : drainEncoder c o p fuel t with
    | error e =>
      simp only [bind, Except.bind, hsecond] at hrun
      cases hrun
    | ok u =>
      simp only [bind, Except.bind, hsecond, if_pos hp] at hrun
      cases hrun
      exact ⟨t, u, _, rfl, hsecond, rfl, hp⟩

theorem receive_end_of {c : Codecs} {fuel : ℕ} {t u : TranscoderVideo}
    (hfirst : drainDecoder c o p fuel s = .ok t) (hsecond : drainEncoder c o p fuel t = .ok u) :
    ∃ s', s.receive_ctrl c o fuel p = .ok s' := by
  rw [receive_ctrl, hfirst]
  simp only [bind, Except.bind, hsecond]
  exact ⟨_, rfl⟩

/-- More fuel makes no difference to a loop that has ended. -/
theorem loop_fuel {F : ℕ → TranscoderVideo → Except SirannonException TranscoderVideo}
    (more : TranscoderVideo → Prop) [DecidablePred more]
    (turn : TranscoderVideo → Except SirannonException TranscoderVideo)
    (hzero : ∀ s, F 0 s = if more s then .error outOfFuel else .ok s)
    (hsucc : ∀ n s, F (n+1) s = if more s then turn s >>= F n else .ok s) {fuel fuel' : ℕ}
    (hle : fuel ≤ fuel') (h : F fuel s = .ok s') : F fuel' s = .ok s' := by
  induction fuel generalizing s fuel' with
  | zero =>
    rw [hzero] at h
    by_cases hmore : more s
    · rw [if_pos hmore] at h
      cases h
    · rw [if_neg hmore] at h
      cases fuel' with
      | zero => rw [hzero, if_neg hmore, h]
      | succ fuel' => rw [hsucc, if_neg hmore, h]
  | succ fuel ih =>
    obtain ⟨n, rfl⟩ : ∃ n, fuel' = n+1 := ⟨fuel'-1, by omega⟩
    rw [hsucc] at h ⊢
    by_cases hmore : more s
    · rw [if_pos hmore] at h ⊢
      obtain ⟨t, hturn, hrest⟩ := bind_ok.1 h
      rw [hturn]
      exact ih (by omega) hrest
    · rw [if_neg hmore] at h ⊢
      exact h

theorem drainDecoder_fuel {c : Codecs} {fuel fuel' : ℕ} (hle : fuel ≤ fuel')
    (h : drainDecoder c o p fuel s = .ok s') : drainDecoder c o p fuel' s = .ok s' :=
  loop_fuel (fun s => s.iDecoded < s.iFrames)
    (fun s => encode c o { s with iDecoded := s.iDecoded+1 } p)
    (fun _ => rfl) (fun _ _ => rfl) hle h

theorem drainEncoder_fuel {c : Codecs} {fuel fuel' : ℕ} (hle : fuel ≤ fuel')
    (h : drainEncoder c o p fuel s = .ok s') : drainEncoder c o p fuel' s = .ok s' :=
  loop_fuel (fun s => s.iEncoded < s.iFrames) (fun s => encode c o s p)
    (fun _ => rfl) (fun _ _ => rfl) hle h

/-- What the drains need: a descriptor, if the first picture is put in here. -/
def Opens (l : DelayLines) (o : Settings) (bKnown : Bool) (fs : List CompleteFrame)
    (pEnd : MediaPacket) : Prop :=
  keptStamps o fs ≠ [] → bKnown = true ∨ pEnd.desc ≠ none ∨ 0 < late l o fs

theorem drains_sent (fuel : ℕ) (h : Tracks l o bKnown fs s) (hopen : Opens l o bKnown fs p)
    (hfuel : (keptStamps o fs).length+l.e ≤ fuel) :
    ∃ t u, drainDecoder l.codecs o p fuel s = .ok t ∧ drainEncoder l.codecs o p fuel t = .ok u ∧
      Sent l (keptStamps o fs) u.routed := by
  have hdesc : late l o fs < (keptStamps o fs).length → late l o fs = 0 → bKnown = false →
      p.desc ≠ none := by
    intro hlt hzero hb
    have hne : keptStamps o fs ≠ [] := by
      intro hnil
      rw [hnil] at hlt
      simp at hlt
    rcases hopen hne with hb' | hp | hlate
    · rw [hb] at hb'
      cases hb'
    · exact hp
    · omega
  obtain ⟨t, hfirst, hcoding, hframes⟩ := drainDecoder_coding (o := o) (p := p) fuel
    h.coding h.frames h.decoded late_le (by omega) hdesc
  obtain ⟨u, hsecond, hsent⟩ := drainEncoder_coding (o := o) (p := p) fuel hcoding hframes
    le_rfl (by omega)
  exact ⟨t, u, hfirst, hsecond, hsent⟩

/-- Without a descriptor the encoder is not opened for the first time by the end packet. -/
theorem opens_of_drain {fuel : ℕ} {t : TranscoderVideo} (h : Tracks l o bKnown fs s)
    (hrun : drainDecoder l.codecs o p fuel s = .ok t) : Opens l o bKnown fs p := by
  intro hne
  have hpos := List.length_pos_of_ne_nil hne
  have hframes := h.frames
  have hdecoded := h.decoded
  by_contra hno
  push Not at hno
  obtain ⟨hb, hp, hlate⟩ := hno
  have hzero : late l o fs = 0 := by omega
  have hcoding := h.coding
  rw [hzero] at hcoding hdecoded
  cases fuel with
  | zero =>
    rw [drainDecoder, if_pos (by omega)] at hrun
    cases hrun
  | succ fuel =>
    rw [drainDecoder, if_pos (by omega)] at hrun
    cases hencode : encode l.codecs o { s with iDecoded := s.iDecoded+1 } p with
    | error e =>
      rw [hencode] at hrun
      cases hrun
    | ok u =>
      have hnext : Coding l bKnown (keptStamps o fs) 0 { s with iDecoded := s.iDecoded+1 } :=
        ⟨hcoding.calls, hcoding.iEncoded, hcoding.iFrame, hcoding.queue, hcoding.sent,
          hcoding.within⟩
      exact encode_undescribed hnext rfl (by simpa using hb) hp u hencode

end TranscoderVideo

open TranscoderVideo

theorem transcodes_of_suited {pEnd : MediaPacket} (h : Suited l o bKnown fs pEnd) :
    Transcodes l o bKnown fs pEnd := by
  obtain ⟨s, hrun, htracks⟩ := frames_tracks bKnown ((keptStamps o fs).length+l.e)
    h.taken h.bounded
  obtain ⟨t, u, hfirst, hsecond, hsent⟩ := drains_sent (p := { pEnd with type := .end })
    ((keptStamps o fs).length+l.e) htracks
    h.opened le_rfl
  obtain ⟨s', hend⟩ := receive_end_of hfirst hsecond
  obtain ⟨t', u', last, hfirst', hsecond', hrouted, hlast⟩ := receive_end rfl hend
  rw [hfirst] at hfirst'
  cases hfirst'
  rw [hsecond] at hsecond'
  cases hsecond'
  refine ⟨(keptStamps o fs).length+l.e, s', u.routed, last, ?_, hrouted, hlast, ?_, ?_⟩
  · rw [stream, run_append, hrun]
    exact (run_end l.codecs ((keptStamps o fs).length+l.e) pEnd s).trans hend
  · rw [← h.same]
    exact hsent
  · rw [keep_length, List.length_map]

theorem suited_of_transcodes {pEnd : MediaPacket} (h : Transcodes l o bKnown fs pEnd) :
    Suited l o bKnown fs pEnd := by
  obtain ⟨fuel, s', sent, last, hrun, hrouted, -, hsent, -⟩ := h
  rw [stream] at hrun
  obtain ⟨s, hfront, hend⟩ := run_append_ok hrun
  rw [run_end] at hend
  obtain ⟨t, u, last', hfirst, hsecond, hrouted', -⟩ := receive_end rfl hend
  have htaken : AllTaken l fs := by
    by_contra hmiss
    have hless := (frames_balanced hfront).missing hmiss
    obtain ⟨hgiven, hframes⟩ := drainDecoder_given hfirst
    have hdone := drainEncoder_given hsecond
    omega
  have hbounded := frames_bounded htaken hfront
  obtain ⟨same, hsame, htracks⟩ := frames_tracks bKnown fuel htaken hbounded
  rw [hfront] at hsame
  cases hsame
  have hopens := opens_of_drain htracks hfirst
  -- The loops end in the same state with as much fuel as they are known to need.
  obtain ⟨t', u', hfirst', hsecond', hsent'⟩ := drains_sent (max fuel ((keptStamps o fs).length+l.e))
    htracks hopens (le_max_right _ _)
  rw [drainDecoder_fuel (le_max_left _ _) hfirst] at hfirst'
  cases hfirst'
  rw [drainEncoder_fuel (le_max_left _ _) hsecond] at hsecond'
  cases hsecond'
  rw [hrouted] at hrouted'
  obtain ⟨rfl, -⟩ := List.append_inj' hrouted' rfl
  exact ⟨htaken, hbounded, stamps_inj (hsent'.stamped.symm.trans hsent.stamped), hopens⟩

/-- Each frame that is kept leaves with its own time stamp when the decoder takes every packet, the
fraction stays small, and the encoder can be opened. -/
theorem transcodes_iff (l : DelayLines) (o : Settings) (bKnown : Bool) (fs : List CompleteFrame)
    (pEnd : MediaPacket) : Transcodes l o bKnown fs pEnd ↔ Suited l o bKnown fs pEnd :=
  ⟨suited_of_transcodes, transcodes_of_suited⟩

/-! ## A decoder that waits -/

def videoDesc : MediaDescriptor where
  content := .video
  codec := .mp4v
  width := 352
  height := 288
  bitrate := 0
  samplerate := 0
  channels := 0
  extra_data := []

def videoPckt : MediaPacket :=
  { (MediaPacket.new .media .video 1).pushed [0xB6] with dts := 90000, desc := some videoDesc }

def oneFrame : CompleteFrame where
  parts := []
  last := videoPckt
  unended := by simp
  ended := rfl
  media := by simp [videoPckt, MediaPacket.new, Metadata.new, MediaPacket.pushed]
  described := by simp [videoPckt]

/-- No picture for the first packet, and no bytes used. -/
def waitingOnce : DelayLines where
  d := 1
  waits := fun _ => true
  e := 0
  size := fun _ => 1
  packets := fun _ => [MediaPacket.new .media .video 1]
  key := fun _ => false
  coded := fun _ => Nat.one_pos
  framed := fun _ => by simp

theorem below_one : (-1 : ℤ) ≤ 1 := by decide

def unreduced : Settings where
  iReduce := ⟨-1, 1, Int.one_pos, below_one⟩
  iMinDts := -1
  bMovFrame := false
  iStream := 1
  pDesc := videoDesc
  route := 100
  inc := 3600

/-- The frame is in the decoder, its time stamp in the decoder's queue, and the drain takes one from
the other queue, which is empty. -/
theorem one_frame_not_transcoded : ¬Transcodes waitingOnce unreduced true [oneFrame] videoPckt := by
  rintro ⟨fuel, s, sent, last, hrun, -⟩
  cases fuel with
  | zero => cases hrun
  | succ fuel => cases hrun

end Sirannon.Transcoding
