import Sirannon.PESSending
import Sirannon.Thinning
import Sirannon.TranscoderVideo

/-!
# Codecs as delay lines

A decoder keeps its first packets for itself, and an encoder its first pictures.
What is said of the packets sent away is which frame they belong to and which
time stamp they carry: for the frames that the reduction keeps, one after the
other, and behind them the end packet.
-/

set_option autoImplicit false

namespace Sirannon.Transcoding
open Bits Media Thinning

/-- The decoder has no picture for the first `d` packets, and returns nothing or the size. The
encoder has nothing for the first `e` pictures; what it has then is made into some packets. -/
structure DelayLines where
  d : ℕ
  waits : ℕ → Bool
  e : ℕ
  size : ℕ → ℕ
  packets : ℕ → List MediaPacket
  key : ℕ → Bool
  coded : ∀ i, 0 < size i
  framed : ∀ i, packets i ≠ []

def DelayLines.codecs (l : DelayLines) : Codecs where
  decode i n := (if i < l.d ∧ l.waits i = true then 0 else n, decide (l.d ≤ i))
  encode i := if i < l.e then 0 else l.size i
  packets := l.packets
  key := l.key

/-- A frame in parts, of which only the last one has the flag for the end. -/
structure CompleteFrame where
  parts : List MediaPacket
  last : MediaPacket
  unended : ∀ p ∈ parts, p.frameend = false
  ended : last.frameend = true
  media : ∀ p ∈ parts ++ [last], p.type = .media
  described : ∀ p ∈ parts ++ [last], p.desc ≠ none

namespace CompleteFrame

def packets (f : CompleteFrame) : List MediaPacket := f.parts ++ [f.last]

def dts (f : CompleteFrame) : ℤ := (f.parts.head?.getD f.last).dts

def size (f : CompleteFrame) : ℕ := sizes f.packets

end CompleteFrame

/-- Frames and then an end packet. -/
def stream (fs : List CompleteFrame) (pEnd : MediaPacket) : List MediaPacket :=
  fs.flatMap CompleteFrame.packets ++ [{ pEnd with type := .end }]

variable {α : Type}

/-- What a reduction keeps of a sequence. -/
def Reduction.keep (r : Reduction) (as : List α) : List α :=
  if 0 < r.num then thin r.num r.den as else as

def Reduction.count (r : Reduction) (n : ℕ) : ℤ := if 0 < r.num then n*r.num/r.den else n

/-- The packets of the frames from number `k` on: their frame, and its time stamp. -/
def stamps (l : DelayLines) : ℕ → List ℤ → List (ℤ × ℤ)
  | _, [] => []
  | k, dts::ds =>
    List.replicate (l.packets (l.e+k)).length ((k : ℤ), dts) ++ stamps l (k+1) ds

def stampOf (p : MediaPacket) : ℤ × ℤ := (p.framenumber, p.dts)

/-- What was sent away are the frames with these time stamps. -/
structure Sent (l : DelayLines) (as : List ℤ) (routed : List MediaPacket) : Prop where
  media : ∀ p ∈ routed, p.type = .media
  stamped : routed.map stampOf = stamps l 0 as

/-- The run comes to its end, and the end packet follows one frame for each one kept. -/
def Transcodes (l : DelayLines) (o : Settings) (bKnown : Bool) (fs : List CompleteFrame)
    (pEnd : MediaPacket) : Prop :=
  ∃ fuel s sent last,
    TranscoderVideo.run l.codecs o fuel (stream fs pEnd) (TranscoderVideo.new bKnown) = .ok s ∧
    s.routed = sent ++ [last] ∧ last.type = .end ∧
    Sent l (o.iReduce.keep (fs.map CompleteFrame.dts)) sent ∧
    ((o.iReduce.keep (fs.map CompleteFrame.dts)).length : ℤ) = o.iReduce.count fs.length

theorem keep_length (r : Reduction) (as : List α) : ((r.keep as).length : ℤ) = r.count as.length := by
  rw [Reduction.keep, Reduction.count]
  by_cases hnum : 0 < r.num
  · rw [if_pos hnum, if_pos hnum, thin_length hnum r.le]
  · rw [if_neg hnum, if_neg hnum]

/-! ## Time stamps of packets -/

theorem stamps_append (l : DelayLines) (k : ℕ) (as bs : List ℤ) :
    stamps l k (as++bs) = stamps l k as ++ stamps l (k+as.length) bs := by
  induction as generalizing k with
  | nil => simp [stamps]
  | cons a as ih =>
    have hnext : k+1+as.length = k+(a::as).length := by
      rw [List.length_cons]
      omega
    rw [List.cons_append, stamps, stamps, ih, hnext, List.append_assoc]

theorem stamps_head (l : DelayLines) (k : ℕ) (as : List ℤ) :
    (stamps l k as).head? = as.head?.map fun a => ((k : ℤ), a) := by
  cases as with
  | nil => rfl
  | cons a as =>
    obtain ⟨n, hn⟩ := Nat.exists_eq_succ_of_ne_zero
      (fun h => l.framed (l.e+k) (List.eq_nil_of_length_eq_zero h))
    rw [stamps, hn]
    rfl

/-- The packets tell which frames were sent, since no frame is without a packet. -/
theorem stamps_inj {l : DelayLines} {k : ℕ} {as bs : List ℤ} (h : stamps l k as = stamps l k bs) :
    as = bs := by
  induction as generalizing k bs with
  | nil =>
    have hhead := congrArg List.head? h
    rw [stamps_head, stamps_head] at hhead
    cases bs with
    | nil => rfl
    | cons b bs => cases hhead
  | cons a as ih =>
    have hhead := congrArg List.head? h
    rw [stamps_head, stamps_head] at hhead
    cases bs with
    | nil => cases hhead
    | cons b bs =>
      have hab : a = b := by
        simp only [List.head?_cons, Option.map_some, Option.some.injEq, Prod.mk.injEq] at hhead
        exact hhead.2
      subst hab
      rw [stamps, stamps] at h
      rw [ih (List.append_cancel_left h)]

/-! ## One picture into the encoder -/

namespace TranscoderVideo

/-- Both states have the same beside the encoder. -/
structure Beside (s s' : TranscoderVideo) : Prop where
  pDecoderCtx : s'.pDecoderCtx = s.pDecoderCtx
  iFrames : s'.iFrames = s.iFrames
  iDecoded : s'.iDecoded = s.iDecoded
  iFrac : s'.iFrac = s.iFrac
  vDecodeDTS : s'.vDecodeDTS = s.vDecodeDTS
  vBuffer2 : s'.vBuffer2 = s.vBuffer2

variable {c : Codecs} {o : Settings} {s s' t : TranscoderVideo} {p : MediaPacket}

theorem beside_trans (h' : Beside t s') (h : Beside s t) : Beside s s' where
  pDecoderCtx := h'.pDecoderCtx.trans h.pDecoderCtx
  iFrames := h'.iFrames.trans h.iFrames
  iDecoded := h'.iDecoded.trans h.iDecoded
  iFrac := h'.iFrac.trans h.iFrac
  vDecodeDTS := h'.vDecodeDTS.trans h.vDecodeDTS
  vBuffer2 := h'.vBuffer2.trans h.vBuffer2

theorem release_run (o : Settings) (key : Bool) (i : ℕ) (ps : List MediaPacket) (s : TranscoderVideo) :
    ∃ iUnit qs, release o key i ps s = { s with iUnit := iUnit, routed := s.routed ++ qs } ∧
      qs.map stampOf = List.replicate ps.length (s.iFrame, s.iEncodedDts) ∧
      ∀ q ∈ qs, q.type = .media := by
  induction ps generalizing i s with
  | nil => exact ⟨s.iUnit, [], by rw [List.append_nil]; rfl, rfl, by simp⟩
  | cons p ps ih =>
    obtain ⟨iUnit, qs, hrun, hstamps, hmedia⟩ := ih (i+1)
      { s with iUnit := s.iUnit+1, routed := s.routed ++ [s.subframe o key i ps.isEmpty p] }
    refine ⟨iUnit, s.subframe o key i ps.isEmpty p::qs, ?_, ?_, ?_⟩
    · rw [release, hrun]
      simp
    · have hstamp : stampOf (s.subframe o key i ps.isEmpty p) = (s.iFrame, s.iEncodedDts) := by
        simp [stampOf, subframe]
      rw [List.map_cons, hstamp, hstamps, List.length_cons, List.replicate_succ]
    · intro q hq
      rcases List.mem_cons.1 hq with rfl | hq
      · rfl
      · exact hmedia q hq

/-- The encoder after `m` pictures, with the time stamps `as` given to it so far. -/
structure Coding (l : DelayLines) (bKnown : Bool) (as : List ℤ) (m : ℕ) (s : TranscoderVideo) :
    Prop where
  calls : s.pEncoderCtx = if m = 0 ∧ bKnown = false then none else some m
  iEncoded : s.iEncoded = (m-l.e : ℕ)
  iFrame : s.iFrame = (m-l.e : ℕ)
  queue : s.vEncodeDTS = as.drop (m-l.e)
  sent : Sent l (as.take (m-l.e)) s.routed
  within : m-l.e ≤ as.length

variable {l : DelayLines} {bKnown : Bool} {as : List ℤ} {m : ℕ}

theorem coding_new (l : DelayLines) (bKnown : Bool) : Coding l bKnown [] 0 (new bKnown) where
  calls := by
    cases bKnown with
    | false => rfl
    | true => rfl
  iEncoded := by rw [Nat.zero_sub]; rfl
  iFrame := by rw [Nat.zero_sub]; rfl
  queue := by rw [List.drop_nil]; rfl
  sent := ⟨fun p hp => (List.not_mem_nil hp).elim, by rw [List.take_nil]; rfl⟩
  within := by omega

/-- One more time stamp for the encoder. -/
theorem coding_push (h : Coding l bKnown as m s) (a : ℤ) :
    Coding l bKnown (as++[a]) m { s with vEncodeDTS := s.vEncodeDTS ++ [a] } := by
  have hwithin := h.within
  constructor
  · exact h.calls
  · exact h.iEncoded
  · exact h.iFrame
  · show s.vEncodeDTS ++ [a] = _
    rw [h.queue, List.drop_append_of_le_length hwithin]
  · rw [List.take_append_of_le_length hwithin]
    exact h.sent
  · rw [List.length_append]
    omega

theorem sent_snoc {bs : List ℤ} {a : ℤ} {routed qs : List MediaPacket} (h : Sent l bs routed)
    (hq : qs.map stampOf =
      List.replicate (l.packets (l.e+bs.length)).length ((bs.length : ℤ), a))
    (hmedia : ∀ q ∈ qs, q.type = .media) : Sent l (bs++[a]) (routed++qs) := by
  constructor
  · intro p hp
    rcases List.mem_append.1 hp with hp | hp
    · exact h.media p hp
    · exact hmedia p hp
  · rw [List.map_append, h.stamped, hq, stamps_append, Nat.zero_add, stamps, stamps,
      List.append_nil]

theorem encodePicture_coding (h : Coding l bKnown as m s) (hcalls : s.pEncoderCtx.getD 0 = m)
    (hleft : m-l.e < as.length) :
    ∃ s', s.encodePicture l.codecs o = .ok s' ∧ Coding l bKnown as (m+1) s' ∧ Beside s s' := by
  rw [encodePicture, hcalls]
  by_cases hm : m < l.e
  · have hbytes : l.codecs.encode m = 0 := if_pos hm
    have hsame : m+1-l.e = m-l.e := by omega
    refine ⟨{ s with pEncoderCtx := some (m+1) }, ?_, ?_, ⟨rfl, rfl, rfl, rfl, rfl, rfl⟩⟩
    · simp [hbytes]
    · constructor
      · simp
      · rw [hsame]
        exact h.iEncoded
      · rw [hsame]
        exact h.iFrame
      · rw [hsame]
        exact h.queue
      · rw [hsame]
        exact h.sent
      · rw [hsame]
        exact h.within
  · have hbytes : 0 < l.codecs.encode m := by
      have hsize : l.codecs.encode m = l.size m := if_neg hm
      have hpos := l.coded m
      rw [hsize]
      omega
    have hnext : m+1-l.e = m-l.e+1 := by omega
    have hcall : l.e+(m-l.e) = m := by omega
    have hqueue : s.vEncodeDTS = as[m-l.e]::as.drop (m-l.e+1) := by
      rw [h.queue, List.drop_eq_getElem_cons hleft]
    obtain ⟨iUnit, qs, hrun, hstamps, hmedia⟩ := release_run o (l.codecs.key m) 0 (l.codecs.packets m)
      { s with
        pEncoderCtx := some (m+1)
        iEncoded := s.iEncoded+1
        iEncodedDts := as[m-l.e]
        vEncodeDTS := as.drop (m-l.e+1) }
    rw [if_pos hbytes, encoded]
    simp only [hqueue, hrun]
    refine ⟨_, rfl, ?_, ⟨rfl, rfl, rfl, rfl, rfl, rfl⟩⟩
    constructor
    · simp
    · show s.iEncoded+1 = _
      rw [h.iEncoded, hnext]
      rfl
    · show s.iFrame+1 = _
      rw [h.iFrame, hnext]
      rfl
    · rw [hnext]
    · have hlength : (as.take (m-l.e)).length = m-l.e := by
        rw [List.length_take]
        omega
      rw [hnext, ← List.take_append_getElem hleft]
      apply sent_snoc h.sent _ hmedia
      rw [hstamps, hlength, hcall, ← h.iFrame]
      rfl
    · omega

/-- The encoder is opened with its first picture, for which a descriptor is needed. -/
theorem encode_coding (h : Coding l bKnown as m s) (hleft : m-l.e < as.length)
    (hdesc : m = 0 → bKnown = false → p.desc ≠ none) :
    ∃ s', s.encode l.codecs o p = .ok s' ∧ Coding l bKnown as (m+1) s' ∧ Beside s s' := by
  rw [encode]
  by_cases hfirst : m = 0 ∧ bKnown = false
  · have hcalls : s.pEncoderCtx = none := by rw [h.calls, if_pos hfirst]
    obtain ⟨desc, hsome⟩ := Option.ne_none_iff_exists'.1 (hdesc hfirst.1 hfirst.2)
    have hopen : Coding l true as m { s with pEncoderCtx := some 0 } := by
      constructor
      · simp [hfirst.1]
      · exact h.iEncoded
      · exact h.iFrame
      · exact h.queue
      · exact h.sent
      · exact h.within
    obtain ⟨s', hrun, hcoding, hbeside⟩ :=
      encodePicture_coding (o := o) hopen (by rw [hfirst.1]; rfl) hleft
    refine ⟨s', ?_, ?_, beside_trans hbeside ⟨rfl, rfl, rfl, rfl, rfl, rfl⟩⟩
    · rw [hcalls, hsome]
      exact hrun
    · constructor
      · rw [hcoding.calls]
        simp
      · exact hcoding.iEncoded
      · exact hcoding.iFrame
      · exact hcoding.queue
      · exact hcoding.sent
      · exact hcoding.within
  · have hcalls : s.pEncoderCtx = some m := by rw [h.calls, if_neg hfirst]
    obtain ⟨s', hrun, hcoding, hbeside⟩ :=
      encodePicture_coding (o := o) h (by rw [hcalls]; rfl) hleft
    refine ⟨s', ?_, hcoding, hbeside⟩
    rw [hcalls]
    exact hrun

theorem encode_undescribed (h : Coding l bKnown as m s) (hm : m = 0) (hb : bKnown = false)
    (hp : p.desc = none) (s' : TranscoderVideo) : s.encode l.codecs o p ≠ .ok s' := by
  have hcalls : s.pEncoderCtx = none := by rw [h.calls, if_pos ⟨hm, hb⟩]
  rw [encode, hcalls, hp]
  intro hrun
  cases hrun

/-! ## The drain -/

theorem drainDecoder_coding (fuel : ℕ) (h : Coding l bKnown as m s) (hframes : s.iFrames = as.length)
    (hdecoded : s.iDecoded = m) (hm : m ≤ as.length) (hfuel : as.length-m ≤ fuel)
    (hdesc : m < as.length → m = 0 → bKnown = false → p.desc ≠ none) :
    ∃ s', drainDecoder l.codecs o p fuel s = .ok s' ∧ Coding l bKnown as as.length s' ∧
      s'.iFrames = as.length := by
  induction fuel generalizing m s with
  | zero =>
    have hend : m = as.length := by omega
    subst hend
    refine ⟨s, ?_, h, hframes⟩
    rw [drainDecoder, if_neg (by omega)]
  | succ fuel ih =>
    by_cases hend : m = as.length
    · subst hend
      refine ⟨s, ?_, h, hframes⟩
      rw [drainDecoder, if_neg (by omega)]
    · have hnext : Coding l bKnown as m { s with iDecoded := s.iDecoded+1 } :=
        ⟨h.calls, h.iEncoded, h.iFrame, h.queue, h.sent, h.within⟩
      obtain ⟨s₁, hrun, hcoding, hbeside⟩ :=
        encode_coding (o := o) (p := p) hnext (by omega) (hdesc (by omega))
      have hdecoded₁ : s₁.iDecoded = (m+1 : ℕ) := by
        rw [hbeside.iDecoded]
        show s.iDecoded+1 = _
        rw [hdecoded]
        rfl
      obtain ⟨s', hrest, hdone, hsame⟩ := ih hcoding (hbeside.iFrames.trans hframes) hdecoded₁
        (by omega) (by omega) (by omega)
      refine ⟨s', ?_, hdone, hsame⟩
      rw [drainDecoder, if_pos (by omega), hrun]
      exact hrest

/-- The encoder gives up what it holds, and no more pictures than that are put in. -/
theorem drainEncoder_coding (fuel : ℕ) (h : Coding l bKnown as m s) (hframes : s.iFrames = as.length)
    (hm : as.length ≤ m) (hfuel : as.length+l.e-m ≤ fuel) :
    ∃ s', drainEncoder l.codecs o p fuel s = .ok s' ∧ Sent l as s'.routed := by
  have hencoded := h.iEncoded
  have hwithin := h.within
  have hdone : m-l.e = as.length → Sent l as s.routed := by
    intro hend
    have hsent := h.sent
    rw [hend, List.take_length] at hsent
    exact hsent
  induction fuel generalizing m s with
  | zero =>
    refine ⟨s, ?_, hdone (by omega)⟩
    rw [drainEncoder, if_neg (by omega)]
  | succ fuel ih =>
    by_cases hend : m-l.e = as.length
    · refine ⟨s, ?_, hdone hend⟩
      rw [drainEncoder, if_neg (by omega)]
    · obtain ⟨s₁, hrun, hcoding, hbeside⟩ :=
        encode_coding (o := o) (p := p) h (by omega) (by omega)
      obtain ⟨s', hrest, hsent⟩ := ih hcoding (hbeside.iFrames.trans hframes) (by omega) (by omega)
        hcoding.iEncoded hcoding.within (by
          intro hend
          have hsent := hcoding.sent
          rw [hend, List.take_length] at hsent
          exact hsent)
      refine ⟨s', ?_, hsent⟩
      rw [drainEncoder, if_pos (by omega), hrun]
      exact hrest

end TranscoderVideo

end Sirannon.Transcoding
