import Sirannon.FrameDelay

/-!
# One time stamp for each frame

What the counters hold after some frames: the frames that the reduction keeps,
less what has gone into the encoder. Where the decoder takes a packet without
giving a number of bytes for it, the frame is counted, but its time stamp stays
behind, and the drain runs out of time stamps.
-/

set_option autoImplicit false

namespace Sirannon.Transcoding
open Bits Media Thinning
open PES (mergeFrameParts)

/-! ## What is kept -/

def started (o : Settings) (fs : List CompleteFrame) : List CompleteFrame :=
  fs.filter fun f => ¬f.dts < o.iMinDts

/-- The time stamps that are kept of the frames that are not too early. -/
def keptStamps (o : Settings) (fs : List CompleteFrame) : List ℤ :=
  o.iReduce.keep ((started o fs).map CompleteFrame.dts)

/-- How many frames are kept when the decoder has a picture. -/
def late (l : DelayLines) (o : Settings) (fs : List CompleteFrame) : ℕ :=
  (keptStamps o fs).length-(keptStamps o (fs.take l.d)).length

/-- The decoder says that it has used the packet. -/
def Taken (l : DelayLines) (i : ℕ) (f : CompleteFrame) : Prop :=
  f.size ≠ 0 ∧ ¬(i < l.d ∧ l.waits i = true)

def AllTaken (l : DelayLines) (fs : List CompleteFrame) : Prop :=
  ∀ i f, fs[i]? = some f → Taken l i f

/-- The fraction stays a number of 32 bits. -/
def Bounded (o : Settings) (fs : List CompleteFrame) : Prop :=
  0 < o.iReduce.num →
    ∀ k < (started o fs).length, carry o.iReduce.num o.iReduce.den k+o.iReduce.num < 2^31

structure Suited (l : DelayLines) (o : Settings) (bKnown : Bool) (fs : List CompleteFrame)
    (pEnd : MediaPacket) : Prop where
  taken : AllTaken l fs
  bounded : Bounded o fs
  same : keptStamps o fs = o.iReduce.keep (fs.map CompleteFrame.dts)
  opened : keptStamps o fs ≠ [] → bKnown = true ∨ pEnd.desc ≠ none ∨ 0 < late l o fs

def KeptNow (o : Settings) (fs : List CompleteFrame) (f : CompleteFrame) : Prop :=
  ¬f.dts < o.iMinDts ∧ (0 < o.iReduce.num → Keeps o.iReduce.num o.iReduce.den (started o fs).length)

variable {l : DelayLines} {o : Settings} {bKnown : Bool} {fs : List CompleteFrame} {f : CompleteFrame}

theorem started_snoc (o : Settings) (fs : List CompleteFrame) (f : CompleteFrame) :
    started o (fs++[f]) = started o fs ++ if f.dts < o.iMinDts then [] else [f] := by
  rw [started, List.filter_append, started]
  by_cases hearly : f.dts < o.iMinDts
  · simp [hearly]
  · simp [hearly, not_lt.1 hearly]

theorem kept_now (h : KeptNow o fs f) : keptStamps o (fs++[f]) = keptStamps o fs ++ [f.dts] := by
  rw [keptStamps, keptStamps, Reduction.keep, Reduction.keep, started_snoc, if_neg h.1,
    List.map_append, List.map_singleton]
  by_cases hnum : 0 < o.iReduce.num
  · rw [if_pos hnum, if_pos hnum, thin_snoc, List.length_map, if_pos (h.2 hnum)]
  · rw [if_neg hnum, if_neg hnum]

theorem not_kept_now (h : ¬KeptNow o fs f) : keptStamps o (fs++[f]) = keptStamps o fs := by
  rw [keptStamps, keptStamps, started_snoc]
  by_cases hearly : f.dts < o.iMinDts
  · rw [if_pos hearly, List.append_nil]
  · have hdrop : 0 < o.iReduce.num ∧
        ¬Keeps o.iReduce.num o.iReduce.den (started o fs).length := by
      rw [KeptNow] at h
      tauto
    rw [if_neg hearly, List.map_append, List.map_singleton, Reduction.keep, Reduction.keep,
      if_pos hdrop.1, if_pos hdrop.1, thin_snoc, List.length_map, if_neg hdrop.2, List.append_nil]

theorem kept_append_le (fs gs : List CompleteFrame) :
    (keptStamps o fs).length ≤ (keptStamps o (fs++gs)).length := by
  induction gs using List.reverseRecOn with
  | nil => rw [List.append_nil]
  | append_singleton gs g ih =>
    rw [← List.append_assoc]
    by_cases hkeep : KeptNow o (fs++gs) g
    · rw [kept_now hkeep, List.length_append]
      omega
    · rw [not_kept_now hkeep]
      exact ih

theorem kept_take_le (n : ℕ) (fs : List CompleteFrame) :
    (keptStamps o (fs.take n)).length ≤ (keptStamps o fs).length := by
  have happend := kept_append_le (o := o) (fs.take n) (fs.drop n)
  rw [List.take_append_drop] at happend
  exact happend

theorem late_early (h : fs.length ≤ l.d) : late l o fs = 0 := by
  rw [late, List.take_of_length_le h, Nat.sub_self]

theorem late_kept (h : l.d ≤ fs.length) (hk : KeptNow o fs f) : late l o (fs++[f]) = late l o fs+1 := by
  have hle := kept_take_le (o := o) l.d fs
  rw [late, late, kept_now hk, List.take_append_of_le_length h, List.length_append,
    List.length_singleton]
  omega

theorem late_dropped (hk : ¬KeptNow o fs f) : late l o (fs++[f]) = late l o fs := by
  by_cases h : l.d ≤ fs.length
  · rw [late, late, not_kept_now hk, List.take_append_of_le_length h]
  · have hshort : (fs++[f]).length ≤ l.d := by
      rw [List.length_append, List.length_singleton]
      omega
    rw [late_early hshort, late_early (by omega)]

theorem allTaken_snoc : AllTaken l (fs++[f]) ↔ AllTaken l fs ∧ Taken l fs.length f := by
  constructor
  · intro h
    refine ⟨fun i g hg => ?_, h fs.length f (by simp)⟩
    obtain ⟨hi, -⟩ := List.getElem?_eq_some_iff.1 hg
    exact h i g (by rw [List.getElem?_append_left hi, hg])
  · rintro ⟨h, hf⟩ i g hg
    by_cases hi : i < fs.length
    · rw [List.getElem?_append_left hi] at hg
      exact h i g hg
    · obtain ⟨hlt, -⟩ := List.getElem?_eq_some_iff.1 hg
      rw [List.length_append, List.length_singleton] at hlt
      have hlast : i = fs.length := by omega
      subst hlast
      simp only [List.getElem?_concat_length, Option.some.injEq] at hg
      rw [← hg]
      exact hf

/-! ## The packets of one frame -/

theorem merge_complete (f : CompleteFrame) :
    ∃ g, mergeFrameParts f.parts f.last = .ok ([], some g) ∧ g.dts = f.dts ∧ g.size = f.size ∧
      g.desc ≠ none := by
  have hdesc := f.described
  cases hparts : f.parts with
  | nil =>
    refine ⟨f.last, ?_, ?_, ?_, hdesc f.last (by simp)⟩
    · rw [mergeFrameParts, if_pos f.ended]
    · rw [CompleteFrame.dts, hparts]
      rfl
    · simp [CompleteFrame.size, CompleteFrame.packets, hparts, sizes]
  | cons front rest =>
    refine ⟨_, PES.merge_several front rest f.ended, ?_, ?_, hdesc front (by simp [hparts])⟩
    · rw [CompleteFrame.dts, hparts]
      rfl
    · rw [CompleteFrame.size, CompleteFrame.packets, hparts, ← allBytes_length]
      rfl

namespace TranscoderVideo

variable {c : Codecs} {s s' : TranscoderVideo} {p : MediaPacket}

theorem run_append (fuel : ℕ) (ps qs : List MediaPacket) (s : TranscoderVideo) :
    run c o fuel (ps++qs) s = run c o fuel ps s >>= run c o fuel qs := by
  induction ps generalizing s with
  | nil => rfl
  | cons p ps ih =>
    rw [List.cons_append, run, run]
    cases hp : s.receive c o fuel p with
    | error e => rfl
    | ok t => exact ih t

def opened (s : TranscoderVideo) : TranscoderVideo :=
  if s.pDecoderCtx = none then { s with pDecoderCtx := some 0, iEncoded := 0, iDecoded := 0 } else s

theorem opened_some (s : TranscoderVideo) : s.opened.pDecoderCtx ≠ none := by
  rw [opened]
  by_cases hnone : s.pDecoderCtx = none
  · rw [if_pos hnone]
    simp
  · rw [if_neg hnone]
    exact hnone

theorem receive_media_eq (fuel : ℕ) (htype : p.type = .media) (hdesc : p.desc ≠ none)
    (s : TranscoderVideo) :
    s.receive c o fuel p = mergeFrameParts s.opened.vBuffer2 p >>= fun merged =>
      match merged.2 with
      | none => .ok { s.opened with vBuffer2 := merged.1 }
      | some pMerged => decode c o { s.opened with vBuffer2 := merged.1 } pMerged := by
  obtain ⟨desc, hsome⟩ := Option.ne_none_iff_exists'.1 hdesc
  rw [receive, if_pos htype, receive_media, opened]
  by_cases hnone : s.pDecoderCtx = none
  · rw [if_pos hnone, if_pos hnone, hsome]
    rfl
  · rw [if_neg hnone, if_neg hnone]
    rfl

theorem run_parts (fuel : ℕ) {ps : List MediaPacket} {last g : MediaPacket} {s : TranscoderVideo}
    (hmedia : ∀ p ∈ ps ++ [last], p.type = .media) (hdesc : ∀ p ∈ ps ++ [last], p.desc ≠ none)
    (hend : ∀ p ∈ ps, p.frameend = false)
    (hmerge : mergeFrameParts (s.opened.vBuffer2 ++ ps) last = .ok ([], some g)) :
    run c o fuel (ps ++ [last]) s = decode c o { s.opened with vBuffer2 := [] } g := by
  induction ps generalizing s with
  | nil =>
    rw [List.append_nil] at hmerge
    rw [List.nil_append, run, receive_media_eq fuel (hmedia last (by simp)) (hdesc last (by simp)),
      hmerge]
    show (decode c o { s.opened with vBuffer2 := [] } g >>= fun t => .ok t) = _
    cases decode c o { s.opened with vBuffer2 := [] } g with
    | error e => rfl
    | ok t => rfl
  | cons p ps ih =>
    have hpart : mergeFrameParts s.opened.vBuffer2 p = .ok (s.opened.vBuffer2 ++ [p], none) := by
      simp [mergeFrameParts, hend p (by simp)]
    have hopen : ({ s.opened with vBuffer2 := s.opened.vBuffer2 ++ [p] } : TranscoderVideo).opened =
        { s.opened with vBuffer2 := s.opened.vBuffer2 ++ [p] } := by
      rw [opened, if_neg (opened_some s)]
    rw [List.cons_append, run, receive_media_eq fuel (hmedia p (by simp)) (hdesc p (by simp)), hpart]
    show run c o fuel (ps ++ [last]) { s.opened with vBuffer2 := s.opened.vBuffer2 ++ [p] } = _
    rw [ih (fun q hq => hmedia q (List.mem_cons_of_mem p hq))
      (fun q hq => hdesc q (List.mem_cons_of_mem p hq)) (fun q hq => hend q (List.mem_cons_of_mem p hq))
      (by rw [hopen]; simpa using hmerge), hopen]

theorem run_frame (fuel : ℕ) (f : CompleteFrame) {s : TranscoderVideo} (hs : s.vBuffer2 = []) :
    ∃ g, g.dts = f.dts ∧ g.size = f.size ∧ g.desc ≠ none ∧
      run c o fuel f.packets s = decode c o s.opened g := by
  obtain ⟨g, hmerge, hdts, hsize, hdesc⟩ := merge_complete f
  refine ⟨g, hdts, hsize, hdesc, ?_⟩
  have hbuffer : s.opened.vBuffer2 = [] := by
    rw [opened]
    split_ifs
    · exact hs
    · exact hs
  have hsame : ({ s.opened with vBuffer2 := [] } : TranscoderVideo) = s.opened := by
    rw [← hbuffer]
  have hrun := run_parts (c := c) (o := o) fuel f.media f.described f.unended
    (s := s) (g := g) (by rw [hbuffer]; exact hmerge)
  rw [hsame] at hrun
  exact hrun

/-! ## Counting -/

/-- How many frames have gone into the encoder's queue. -/
def given (s : TranscoderVideo) : ℤ := s.iEncoded+s.vEncodeDTS.length

/-- Every frame that was counted is either given to the encoder or was not taken. -/
structure Balanced (l : DelayLines) (fs : List CompleteFrame) (s : TranscoderVideo) : Prop where
  vBuffer2 : s.vBuffer2 = []
  decoder : s.pDecoderCtx.getD 0 = fs.length
  fresh : s.pDecoderCtx = none → fs = [] ∧ s.iEncoded = 0
  least : s.given ≤ s.iFrames
  missing : ¬AllTaken l fs → s.given < s.iFrames

theorem release_given (key : Bool) (i : ℕ) (ps : List MediaPacket) (s : TranscoderVideo) :
    (release o key i ps s).given = s.given ∧ Beside s (release o key i ps s) := by
  obtain ⟨iUnit, qs, hrun, -, -⟩ := release_run o key i ps s
  rw [hrun]
  exact ⟨rfl, ⟨rfl, rfl, rfl, rfl, rfl, rfl⟩⟩

theorem encoded_given {i : ℕ} (h : s.encoded c o i = .ok s') : s'.given = s.given ∧ Beside s s' := by
  rw [encoded] at h
  cases hqueue : s.vEncodeDTS with
  | nil =>
    rw [hqueue] at h
    cases h
  | cons iDTS rest =>
    rw [hqueue] at h
    cases h
    obtain ⟨hgiven, hbeside⟩ := release_given (o := o) (c.key i) 0 (c.packets i)
      { s with iEncoded := s.iEncoded+1, iEncodedDts := iDTS, vEncodeDTS := rest }
    constructor
    · refine hgiven.trans ?_
      simp only [given, hqueue, List.length_cons]
      push_cast
      ring
    · exact ⟨hbeside.pDecoderCtx, hbeside.iFrames, hbeside.iDecoded, hbeside.iFrac,
        hbeside.vDecodeDTS, hbeside.vBuffer2⟩

theorem encodePicture_given (h : s.encodePicture c o = .ok s') : s'.given = s.given ∧ Beside s s' := by
  rw [encodePicture] at h
  by_cases hpos : 0 < c.encode (s.pEncoderCtx.getD 0)
  · rw [if_pos hpos] at h
    obtain ⟨hgiven, hbeside⟩ := encoded_given h
    exact ⟨hgiven, beside_trans hbeside ⟨rfl, rfl, rfl, rfl, rfl, rfl⟩⟩
  · rw [if_neg hpos] at h
    by_cases hzero : c.encode (s.pEncoderCtx.getD 0) = 0
    · rw [if_pos hzero] at h
      cases h
      exact ⟨rfl, ⟨rfl, rfl, rfl, rfl, rfl, rfl⟩⟩
    · rw [if_neg hzero] at h
      cases h

/-- A frame that is encoded leaves the queue. -/
theorem encode_given (h : s.encode c o p = .ok s') : s'.given = s.given ∧ Beside s s' := by
  rw [encode] at h
  cases hcalls : s.pEncoderCtx with
  | some n =>
    rw [hcalls] at h
    exact encodePicture_given h
  | none =>
    rw [hcalls] at h
    cases hdesc : p.desc with
    | none =>
      rw [hdesc] at h
      cases h
    | some desc =>
      rw [hdesc] at h
      obtain ⟨hgiven, hbeside⟩ := encodePicture_given h
      exact ⟨hgiven, beside_trans hbeside ⟨rfl, rfl, rfl, rfl, rfl, rfl⟩⟩

theorem drainDecoder_given {fuel : ℕ} (h : drainDecoder c o p fuel s = .ok s') :
    s'.given = s.given ∧ s'.iFrames = s.iFrames := by
  induction fuel generalizing s with
  | zero =>
    rw [drainDecoder] at h
    by_cases hmore : s.iDecoded < s.iFrames
    · rw [if_pos hmore] at h
      cases h
    · rw [if_neg hmore] at h
      cases h
      exact ⟨rfl, rfl⟩
  | succ fuel ih =>
    rw [drainDecoder] at h
    by_cases hmore : s.iDecoded < s.iFrames
    · rw [if_pos hmore] at h
      cases hrun : encode c o { s with iDecoded := s.iDecoded+1 } p with
      | error e =>
        rw [hrun] at h
        cases h
      | ok t =>
        rw [hrun] at h
        obtain ⟨hgiven, hbeside⟩ := encode_given hrun
        obtain ⟨hrest, hframes⟩ := ih h
        exact ⟨hrest.trans hgiven, hframes.trans hbeside.iFrames⟩
    · rw [if_neg hmore] at h
      cases h
      exact ⟨rfl, rfl⟩

/-- The drain of the encoder ends when as many frames were encoded as were counted. -/
theorem drainEncoder_given {fuel : ℕ} (h : drainEncoder c o p fuel s = .ok s') :
    s.iFrames ≤ s.given := by
  induction fuel generalizing s with
  | zero =>
    rw [drainEncoder] at h
    by_cases hmore : s.iEncoded < s.iFrames
    · rw [if_pos hmore] at h
      cases h
    · rw [given]
      omega
  | succ fuel ih =>
    rw [drainEncoder] at h
    by_cases hmore : s.iEncoded < s.iFrames
    · rw [if_pos hmore] at h
      cases hrun : encode c o s p with
      | error e =>
        rw [hrun] at h
        cases h
      | ok t =>
        rw [hrun] at h
        obtain ⟨hgiven, hbeside⟩ := encode_given hrun
        have hend := ih h
        rw [hgiven, hbeside.iFrames] at hend
        exact hend
    · rw [given]
      omega

theorem kept_given {iDTS : ℤ} {b : Bool} (h : s.kept c o p iDTS b = .ok s') :
    s'.given = s.given+1 ∧ s'.iFrames = s.iFrames ∧ s'.vBuffer2 = s.vBuffer2 ∧
      s'.pDecoderCtx = s.pDecoderCtx := by
  have hpush : ({ s with vEncodeDTS := s.vEncodeDTS ++ [iDTS] } : TranscoderVideo).given = s.given+1 := by
    simp only [given, List.length_append, List.length_singleton]
    push_cast
    ring
  rw [kept] at h
  cases b with
  | false =>
    cases h
    exact ⟨hpush, rfl, rfl, rfl⟩
  | true =>
    obtain ⟨hgiven, hbeside⟩ := encode_given h
    exact ⟨hgiven.trans hpush, hbeside.iFrames, hbeside.vBuffer2, hbeside.pDecoderCtx⟩

/-- A packet that was taken is given to the encoder, or no longer counted. -/
theorem decoded_given {b : Bool} (h : s.decoded c o p b = .ok s') :
    s'.given-s'.iFrames = s.given-s.iFrames+1 ∧ s'.vBuffer2 = s.vBuffer2 ∧
      s'.pDecoderCtx = s.pDecoderCtx := by
  rw [decoded] at h
  cases hqueue : s.vDecodeDTS with
  | nil =>
    rw [hqueue] at h
    cases h
  | cons iDTS rest =>
    rw [hqueue] at h
    dsimp only at h
    by_cases hearly : p.dts < o.iMinDts
    · rw [if_pos hearly] at h
      cases h
      refine ⟨?_, rfl, rfl⟩
      simp only [given]
      ring
    · rw [if_neg hearly, reduce] at h
      by_cases hnum : 0 < o.iReduce.num
      · rw [if_pos hnum] at h
        by_cases hover : 2^31 ≤ s.iFrac+o.iReduce.num
        · rw [if_pos hover] at h
          cases h
        · rw [if_neg hover] at h
          by_cases hkeep : o.iReduce.den ≤ s.iFrac+o.iReduce.num
          · rw [if_pos hkeep] at h
            obtain ⟨hgiven, hframes, hbuffer, hdecoder⟩ := kept_given h
            refine ⟨?_, hbuffer, hdecoder⟩
            rw [hgiven, hframes]
            simp only [given]
            ring
          · rw [if_neg hkeep] at h
            cases h
            refine ⟨?_, rfl, rfl⟩
            simp only [given]
            ring
      · rw [if_neg hnum] at h
        obtain ⟨hgiven, hframes, hbuffer, hdecoder⟩ := kept_given h
        refine ⟨?_, hbuffer, hdecoder⟩
        rw [hgiven, hframes]
        simp only [given]
        ring

theorem opened_balanced (h : Balanced l fs s) : Balanced l fs s.opened := by
  rw [opened]
  by_cases hnone : s.pDecoderCtx = none
  · obtain ⟨hfs, hencoded⟩ := h.fresh hnone
    have hsame : ({ s with pDecoderCtx := some 0, iEncoded := 0, iDecoded := 0 } :
        TranscoderVideo).given = s.given := by
      simp only [given, hencoded]
    rw [if_pos hnone]
    constructor
    · exact h.vBuffer2
    · rw [hfs]
      rfl
    · intro hsome
      cases hsome
    · rw [hsame]
      exact h.least
    · rw [hsame]
      exact h.missing
  · rw [if_neg hnone]
    exact h

theorem frame_balanced {fuel : ℕ} (h : Balanced l fs s)
    (hrun : run l.codecs o fuel f.packets s = .ok s') : Balanced l (fs++[f]) s' := by
  obtain ⟨g, hdts, hsize, hdesc, hframe⟩ := run_frame (c := l.codecs) (o := o) fuel f h.vBuffer2
  have ht := opened_balanced h
  have hleast := ht.least
  have hlength : (fs++[f]).length = fs.length+1 := by rw [List.length_append]; rfl
  rw [hframe, decode, ht.decoder] at hrun
  have hstatus : (l.codecs.decode fs.length g.size).1 =
      if fs.length < l.d ∧ l.waits fs.length = true then 0 else (f.size : ℤ) := by
    rw [hsize]
    rfl
  rw [hstatus] at hrun
  by_cases htaken : Taken l fs.length f
  · have hpos : 0 < f.size := Nat.pos_of_ne_zero htaken.1
    rw [if_neg htaken.2, if_neg (by omega), if_neg (by omega)] at hrun
    obtain ⟨hgiven, hbuffer, hdecoder⟩ := decoded_given hrun
    have hsame : ∀ (n : ℤ) (ds : List ℤ) (k : Option ℕ),
        ({ s.opened with iFrames := n, vDecodeDTS := ds, pDecoderCtx := k } : TranscoderVideo).given =
          s.opened.given := fun _ _ _ => rfl
    rw [hsame] at hgiven
    dsimp only at hgiven
    constructor
    · exact hbuffer.trans ht.vBuffer2
    · rw [hdecoder, hlength]
      rfl
    · intro hnone
      rw [hdecoder] at hnone
      cases hnone
    · omega
    · intro hmiss
      have hbefore := ht.missing fun hall => hmiss (allTaken_snoc.2 ⟨hall, htaken⟩)
      omega
  · have hzero : (if fs.length < l.d ∧ l.waits fs.length = true then 0 else (f.size : ℤ)) = 0 := by
      by_cases hwait : fs.length < l.d ∧ l.waits fs.length = true
      · rw [if_pos hwait]
      · rw [Taken] at htaken
        rw [if_neg hwait]
        by_contra hsome
        exact htaken ⟨by omega, hwait⟩
    rw [hzero, if_neg (by omega), if_pos rfl] at hrun
    cases hrun
    constructor
    · exact ht.vBuffer2
    · rw [hlength]
      rfl
    · intro hnone
      cases hnone
    · show s.opened.given ≤ s.opened.iFrames+1
      omega
    · intro _
      show s.opened.given < s.opened.iFrames+1
      omega

end TranscoderVideo

end Sirannon.Transcoding
