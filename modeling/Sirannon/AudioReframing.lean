import Sirannon.TranscoderAudio
import Mathlib.Data.List.TakeWhile

/-!
# Audio streams in blocks

Over a whole stream the blocks for the encoder are the decoded samples in
their order as long as every packet finds room in the array. They begin with
the samples of packets in front of the minimum, and they end when as many
frames have come out as packets have gone in, whatever is left.
-/

set_option autoImplicit false

namespace Sirannon.AudioTranscoding
open Bits MachineInt

variable {c : Codec} {s : TranscoderAudio} {iTotal iPackets b : ℕ} {v : ℤ} {iReached : ℕ}

/-! ## A stream packet by packet -/

def total (ps : List AudioPacket) : ℕ := (ps.map AudioPacket.iSamples).sum

/-- At or after the minimum. -/
def counted (iMinDts : ℤ) (p : AudioPacket) : Bool := decide (iMinDts ≤ p.dts)

/-- The samples up to the last packet that is encoded. -/
def reached (iMinDts : ℤ) (ps : List AudioPacket) : ℕ :=
  total (ps.reverse.dropWhile fun p => !counted iMinDts p)

def iPacketsOf (iMinDts : ℤ) (ps : List AudioPacket) : ℕ := ps.countP (counted iMinDts)

/-- The samples of these packets that have not been handed out. -/
def waiting (c : Codec) (v iMinDts : ℤ) (ps : List AudioPacket) : ℕ :=
  total ps-handed c v (reached iMinDts ps)*c.step

/-- The decoder takes the whole packet. -/
def Decodes (p : AudioPacket) : Prop := 0 < p.iStatus ∧ p.iStatus = p.size

instance (p : AudioPacket) : Decidable (Decodes p) := inferInstanceAs (Decidable (_ ∧ _))

/-- The samples of `p` have room behind those that wait, and it does not open the encoder with
less than a block. -/
def Roomy (c : Codec) (v iMinDts : ℤ) (us : List AudioPacket) (p : AudioPacket) : Prop :=
  waiting c v iMinDts us+p.iSamples ≤ iMaxLength ∧
    (counted iMinDts p → v < total (us ++ [p]) → c.step ≤ total (us ++ [p]))

structure Inv (c : Codec) (v iMinDts : ℤ) (us : List AudioPacket) (s : TranscoderAudio) :
    Prop where
  held : Held c s (total us) (iPacketsOf iMinDts us) (handed c v (reached iMinDts us))
  ready : Ready c s v (reached iMinDts us)

section
variable {iMinDts : ℤ} {us ps : List AudioPacket} {p : AudioPacket}

theorem total_append (us ps : List AudioPacket) : total (us ++ ps) = total us+total ps := by
  simp [total]

theorem total_snoc : total (us ++ [p]) = total us+p.iSamples := by
  simp [total]

theorem total_reverse (us : List AudioPacket) : total us.reverse = total us := by
  rw [total, List.map_reverse, List.sum_reverse, total]

theorem total_sublist (h : List.Sublist us ps) : total us ≤ total ps :=
  List.Sublist.sum_le_sum (h.map _) (by simp)

theorem reached_le (iMinDts : ℤ) (us : List AudioPacket) : reached iMinDts us ≤ total us := by
  rw [reached, ← total_reverse us]
  exact total_sublist (List.dropWhile_sublist _)

theorem reached_counted (h : counted iMinDts p) :
    reached iMinDts (us ++ [p]) = total (us ++ [p]) := by
  rw [reached, List.reverse_append, List.reverse_singleton, List.singleton_append,
    List.dropWhile_cons_of_neg (by simp [h]), ← total_reverse (us ++ [p]),
    List.reverse_append, List.reverse_singleton, List.singleton_append]

theorem reached_skipped (h : ¬counted iMinDts p) :
    reached iMinDts (us ++ [p]) = reached iMinDts us := by
  rw [reached, List.reverse_append, List.reverse_singleton, List.singleton_append,
    List.dropWhile_cons_of_pos (by simp [h]), reached]

/-- The samples are put behind those that wait. -/
theorem copied (h : Held c s iTotal iPackets b) (iSamples : ℕ)
    (hroom : s.iSamplesEnd+iSamples ≤ iMaxLength) :
    ∃ s', copySamples s iSamples = .ok s' ∧ Held c s' (iTotal+iSamples) iPackets b ∧
      s'.pEncoderCtx = s.pEncoderCtx ∧ s'.iSamplesPerStep = s.iSamplesPerStep ∧
      s'.iSamplesStart = s.iSamplesStart ∧ s'.iSamplesEnd = s.iSamplesEnd+iSamples := by
  rw [copySamples, if_neg (by omega)]
  refine ⟨_, rfl, ?_, rfl, rfl, rfl, rfl⟩
  have hkept := h.kept
  constructor
  · exact h.bBypass
  · exact h.pDecoderCtx
  · show s.iPlace+iSamples = iTotal+iSamples
    rw [h.iPlace]
  · show s.iSamplesEnd+iSamples+b*c.step = iTotal+iSamples
    omega
  · exact hroom
  · intro i hi
    replace hi : i < s.iSamplesEnd+iSamples := hi
    dsimp only
    by_cases hnew : s.iSamplesEnd ≤ i
    · rw [if_pos ⟨hnew, hi⟩, h.iPlace]
      congr 1
      omega
    · rw [if_neg (by omega)]
      exact h.cells i (by omega)
  · exact h.vBlocks
  · exact h.iDecoded
  · exact h.iEncoded

theorem ready_same {s' : TranscoderAudio} (hr : Ready c s v iReached)
    (hctx : s'.pEncoderCtx = s.pEncoderCtx) (hper : s'.iSamplesPerStep = s.iSamplesPerStep)
    (hstart : s'.iSamplesStart = s.iSamplesStart) : Ready c s' v iReached := by
  rcases hr with ⟨ho, hopen⟩ | ⟨hclosed, hnone, hthreshold⟩
  · left
    constructor
    · exact ⟨hctx.trans ho.pEncoderCtx, hper.trans ho.iSamplesPerStep,
        hstart.trans ho.iSamplesStart⟩
    · exact hopen
  · right
    constructor
    · exact hctx.trans hclosed
    · rw [hper, hstart]
      exact ⟨hnone, hthreshold⟩

theorem begun_held (h : Held c s iTotal iPackets b) : Held c (begun s p) iTotal (iPackets+1) b := by
  have hdecoded : s.iDecoded+1 = iPackets+1 := by rw [h.iDecoded]
  rw [begun]
  split_ifs
  · exact ⟨h.bBypass, h.pDecoderCtx, h.iPlace, h.kept, h.room, h.cells, h.vBlocks, hdecoded,
      h.iEncoded⟩
  · exact ⟨h.bBypass, h.pDecoderCtx, h.iPlace, h.kept, h.room, h.cells, h.vBlocks, hdecoded,
      h.iEncoded⟩

theorem begun_same : (begun s p).pEncoderCtx = s.pEncoderCtx ∧
    (begun s p).iSamplesPerStep = s.iSamplesPerStep ∧
    (begun s p).iSamplesStart = s.iSamplesStart ∧
    (begun s p).iSamplesEnd = s.iSamplesEnd := by
  rw [begun]
  split_ifs <;> simp

theorem receive_decoded (hbypass : s.bBypass = false) (hdecoder : s.pDecoderCtx = true)
    (hp : Decodes p) : receive c iMinDts s p = (do
      let s ← copySamples s p.iSamples
      if p.dts < iMinDts then .ok s
      else encodeLoop c ((begun s p).iSamplesEnd+1) (begun s p)) := by
  have hpos : ¬p.iStatus ≤ 0 := by
    have := hp.1
    omega
  rw [receive, hbypass, if_neg (by decide), hdecoder, if_pos rfl, if_neg hpos,
    if_neg (not_not.mpr hp.2)]

/-- A packet with room keeps the invariant; without it an access leaves the array. -/
theorem receive_inv (hstep : 0 < c.step) (h : Inv c v iMinDts us s) (hp : Decodes p) :
    (Roomy c v iMinDts us p →
      ∃ s', receive c iMinDts s p = .ok s' ∧ Inv c v iMinDts (us ++ [p]) s') ∧
    (¬Roomy c v iMinDts us p → receive c iMinDts s p = .error .outside) := by
  have hkept := h.held.kept
  have hwaiting : waiting c v iMinDts us = s.iSamplesEnd := by
    rw [waiting]
    omega
  rw [receive_decoded h.held.bBypass h.held.pDecoderCtx hp, Roomy, hwaiting]
  by_cases hroom : s.iSamplesEnd+p.iSamples ≤ iMaxLength
  · rcases copied h.held p.iSamples hroom with ⟨s', hrun, h', hctx, hper, hstart, hend⟩
    have hready := ready_same h.ready hctx hper hstart
    rw [← total_snoc] at h'
    have hle : reached iMinDts us ≤ total (us ++ [p]) := by
      have := reached_le iMinDts us
      rw [total_snoc]
      omega
    simp only [hrun, bind, Except.bind]
    by_cases hcounted : counted iMinDts p
    · have hdts : ¬p.dts < iMinDts := by
        have : iMinDts ≤ p.dts := of_decide_eq_true hcounted
        omega
      have hpackets : iPacketsOf iMinDts (us ++ [p]) = iPacketsOf iMinDts us+1 := by
        rw [iPacketsOf, List.countP_append, List.countP_singleton, if_pos hcounted, iPacketsOf]
      rw [if_neg hdts]
      rcases begun_same (s := s') (p := p) with ⟨hctx', hper', hstart', hend'⟩
      have hbegun := begun_held (p := p) h'
      have hready' := ready_same hready hctx' hper' hstart'
      constructor
      · rintro ⟨_, hwhole⟩
        rcases loop_run hstep hbegun hready' hle (hwhole hcounted) with ⟨s'', hloop, h'', hr''⟩
        refine ⟨s'', hloop, ?_, ?_⟩
        · rw [hpackets, reached_counted hcounted]
          exact h''
        · rw [reached_counted hcounted]
          exact hr''
      · intro hnot
        have hshort : v < total (us ++ [p]) ∧ total (us ++ [p]) < c.step := by
          by_contra hwhole
          apply hnot
          constructor
          · exact hroom
          · intro _ hv
            omega
        exact loop_fails hbegun hready' hle hshort.1 hshort.2
    · have hdts : p.dts < iMinDts := by
        by_contra hle
        exact hcounted (decide_eq_true (by omega))
      have hpackets : iPacketsOf iMinDts (us ++ [p]) = iPacketsOf iMinDts us := by
        rw [iPacketsOf, List.countP_append, List.countP_singleton, if_neg hcounted, iPacketsOf,
          add_zero]
      rw [if_pos hdts]
      constructor
      · intro _
        refine ⟨s', rfl, ?_, ?_⟩
        · rw [hpackets, reached_skipped hcounted]
          exact h'
        · rw [reached_skipped hcounted]
          exact hready
      · intro hnot
        exact absurd ⟨hroom, fun hc => absurd hc hcounted⟩ hnot
  · constructor
    · intro hroomy
      exact absurd hroomy.1 hroom
    · intro _
      rw [copySamples, if_pos (by omega)]
      rfl

/-- Every packet of `ps` has room behind `us` and the packets in front of it. -/
def RoomyRun (c : Codec) (v iMinDts : ℤ) (us ps : List AudioPacket) : Prop :=
  ∀ vs p ws, ps = vs ++ p::ws → Roomy c v iMinDts (us ++ vs) p

theorem roomyRun_cons : RoomyRun c v iMinDts us (p::ps) ↔
    Roomy c v iMinDts us p ∧ RoomyRun c v iMinDts (us ++ [p]) ps := by
  constructor
  · intro h
    constructor
    · have hp := h [] p ps rfl
      rw [List.append_nil] at hp
      exact hp
    · intro vs q ws hps
      have hq := h (p::vs) q ws (by rw [hps, List.cons_append])
      rw [List.append_assoc]
      exact hq
  · rintro ⟨hp, hrest⟩ vs q ws hps
    cases vs with
    | nil =>
      rcases List.cons.inj hps with ⟨hq, _⟩
      rw [List.append_nil, ← hq]
      exact hp
    | cons u vs =>
      rcases List.cons.inj hps with ⟨hu, htail⟩
      have hq := hrest vs q ws htail
      rw [← hu]
      rw [List.append_assoc] at hq
      exact hq

theorem receiveAll_inv (hstep : 0 < c.step) (h : Inv c v iMinDts us s)
    (hps : ∀ p ∈ ps, Decodes p) :
    (RoomyRun c v iMinDts us ps →
      ∃ s', receiveAll c iMinDts s ps = .ok s' ∧ Inv c v iMinDts (us ++ ps) s') ∧
    (¬RoomyRun c v iMinDts us ps → receiveAll c iMinDts s ps = .error .outside) := by
  induction ps generalizing s us with
  | nil =>
    constructor
    · intro _
      refine ⟨s, rfl, ?_⟩
      rw [List.append_nil]
      exact h
    · intro hnot
      exact absurd (fun vs p ws hps => absurd hps (by simp)) hnot
  | cons p ps ih =>
    rcases receive_inv hstep h (hps p (by simp)) with ⟨hok, herror⟩
    rw [roomyRun_cons, receiveAll]
    by_cases hroomy : Roomy c v iMinDts us p
    · rcases hok hroomy with ⟨s', hrun, h'⟩
      rcases ih h' (fun q hq => hps q (by simp [hq])) with ⟨hrest, hfails⟩
      rw [List.append_assoc] at hrest
      simp only [hrun, bind, Except.bind]
      constructor
      · intro hall
        exact hrest hall.2
      · intro hnot
        apply hfails
        intro hall
        exact hnot ⟨hroomy, hall⟩
    · constructor
      · intro hall
        exact absurd hall.1 hroomy
      · intro _
        rw [herror hroomy]
        rfl

end

/-! ## The blocks at the end -/

/-- `j` blocks of the end have been taken, `k` since the encoder was opened. -/
structure Flushing (c : Codec) (s : TranscoderAudio) (m : ℕ → Option ℕ) (iPackets j k : ℕ) :
    Prop where
  pSamplesNonAligned : s.pSamplesNonAligned = m
  iSamplesStart : s.iSamplesStart = j*c.step
  iSamplesPerStep : s.iSamplesPerStep = c.step
  pEncoderCtx : s.pEncoderCtx = some k
  iEncoded : s.iEncoded = k-c.iDelay
  iDecoded : s.iDecoded = iPackets

variable {m : ℕ → Option ℕ} {j k : ℕ}

theorem encode_flushing (h : Flushing c s m iPackets j k) :
    ((j+1)*c.step ≤ iMaxLength → ∃ s', encode c s = .ok s' ∧
      Flushing c s' m iPackets (j+1) (k+1) ∧ s'.vBlocks = s.vBlocks ++ [block m (j*c.step) c.step]) ∧
    (iMaxLength < (j+1)*c.step → encode c s = .error .outside) := by
  have hinit : encoder_init c s = s := by rw [encoder_init, h.pEncoderCtx]
  have hper : s.iSamplesPerStep.toNat = c.step := by
    rw [h.iSamplesPerStep]
    rfl
  have hnext : j*c.step+c.step = (j+1)*c.step := by rw [add_mul, one_mul]
  rcases consume_run k h.pEncoderCtx h.iEncoded with ⟨hcalls, hencoded, hblocks, hstart⟩
  rcases consume_keeps (c := c) (s := s) with ⟨_, _, _, _, hcells, hdecoded, hstep⟩
  rw [h.iSamplesStart, hper] at hblocks hstart
  rw [encode, hinit, h.iSamplesStart, hper, hnext]
  constructor
  · intro hroom
    rw [if_neg (by omega)]
    refine ⟨consume c s, rfl, ?_, ?_⟩
    · exact ⟨hcells.trans h.pSamplesNonAligned, hstart.trans hnext,
        hstep.trans h.iSamplesPerStep, hcalls, hencoded, hdecoded.trans h.iDecoded⟩
    · rw [hblocks, h.pSamplesNonAligned]
  · intro hroom
    rw [if_pos hroom]

/-- Blocks are taken until as many frames have come out as packets have gone in. -/
theorem flush_run (hpackets : 0 < iPackets) (fuel : ℕ) (hfuel : iPackets+c.iDelay-k < fuel)
    (h : Flushing c s m iPackets j k) (hj : j*c.step ≤ iMaxLength) :
    ((j+(iPackets+c.iDelay-k))*c.step ≤ iMaxLength → ∃ s', flushLoop c fuel s = .ok s' ∧
      s'.vBlocks = s.vBlocks ++ (List.range (iPackets+c.iDelay-k)).map fun i =>
        block m ((j+i)*c.step) c.step) ∧
    (iMaxLength < (j+(iPackets+c.iDelay-k))*c.step → flushLoop c fuel s = .error .outside) := by
  induction fuel generalizing s j k with
  | zero => omega
  | succ fuel ih =>
    have hencoded := h.iEncoded
    have hdecoded := h.iDecoded
    rcases encode_flushing h with ⟨hok, herror⟩
    rw [flushLoop]
    by_cases hmore : s.iEncoded < s.iDecoded
    · rw [if_pos hmore]
      have hcount : iPackets+c.iDelay-k = (iPackets+c.iDelay-(k+1))+1 := by omega
      have hplace : j+((iPackets+c.iDelay-(k+1))+1) = j+1+(iPackets+c.iDelay-(k+1)) := by omega
      have hle : (j+1)*c.step ≤ (j+1+(iPackets+c.iDelay-(k+1)))*c.step :=
        Nat.mul_le_mul_right _ (by omega)
      rw [hcount, hplace]
      by_cases hroom : (j+1)*c.step ≤ iMaxLength
      · rcases hok hroom with ⟨s', hrun, h', hblocks⟩
        rcases ih (by omega) h' hroom with ⟨hrest, hfails⟩
        simp only [hrun, bind, Except.bind]
        constructor
        · intro hall
          rcases hrest hall with ⟨s'', hloop, hblocks'⟩
          refine ⟨s'', hloop, ?_⟩
          rw [hblocks', hblocks, List.append_assoc, List.range_succ_eq_map, List.map_cons,
            List.map_map, List.singleton_append, add_zero]
          congr 2
          apply List.map_congr_left
          intro i _
          rw [Function.comp_apply, Nat.succ_eq_add_one, add_right_comm, add_assoc]
        · exact hfails
      · constructor
        · intro hall
          omega
        · intro _
          rw [herror (by omega)]
          rfl
    · rw [if_neg hmore]
      have hnone : iPackets+c.iDelay-k = 0 := by omega
      rw [hnone, add_zero]
      constructor
      · intro _
        exact ⟨s, rfl, by simp⟩
      · intro hbig
        omega

/-- The blocks the loop at the end takes. -/
def extra (c : Codec) (iPackets b : ℕ) : ℕ :=
  if iPackets = 0 then 0 else iPackets+c.iDelay-b

/-- What has been handed to the encoder at the end of the stream. -/
def allBlocks (c : Codec) (m : ℕ → Option ℕ) (iPackets b : ℕ) : List (List (Option ℕ)) :=
  (List.range b).map (whole c) ++
    (List.range (extra c iPackets b)).map fun i => block m (i*c.step) c.step

theorem receive_end_run (h : Held c s iTotal iPackets (handed c v iReached))
    (hr : Ready c s v iReached) (pEnd : Routed) :
    (extra c iPackets (handed c v iReached)*c.step ≤ iMaxLength →
      ∃ s', receive_end c s pEnd = .ok s' ∧
        s'.vBlocks = allBlocks c s.pSamplesNonAligned iPackets (handed c v iReached)) ∧
    (iMaxLength < extra c iPackets (handed c v iReached)*c.step →
      receive_end c s pEnd = .error .outside) := by
  have hdecoded := h.iDecoded
  have hencoded := h.iEncoded
  rw [receive_end, hdecoded, allBlocks, extra]
  rcases Nat.eq_zero_or_pos iPackets with hzero | hpos
  · rw [if_pos hzero, zero_mul]
    constructor
    · intro _
      rw [flushLoop, if_neg (by omega)]
      refine ⟨_, rfl, ?_⟩
      show s.vBlocks = _
      rw [h.vBlocks]
      simp
    · intro hbig
      omega
  · rw [if_neg (by omega)]
    have hfresh : Flushing c (encoder_init c s) s.pSamplesNonAligned iPackets 0
          (handed c v iReached) ∧ (encoder_init c s).vBlocks = s.vBlocks ∧
        flushLoop c (iPackets+c.iDelay+1) s =
          flushLoop c (iPackets+c.iDelay+1) (encoder_init c s) := by
      rcases hr with ⟨ho, _⟩ | ⟨hclosed, hnone, _⟩
      · rw [encoder_init_opened ho]
        refine ⟨⟨rfl, ?_, ho.iSamplesPerStep, ho.pEncoderCtx, hencoded, hdecoded⟩, rfl, rfl⟩
        rw [ho.iSamplesStart, zero_mul]
      · rw [hnone] at hencoded ⊢
        have ho := encoder_init_closed (c := c) hclosed
        have hsame : (encoder_init c s).iEncoded = s.iEncoded ∧
            (encoder_init c s).iDecoded = s.iDecoded ∧
            (encoder_init c s).pSamplesNonAligned = s.pSamplesNonAligned ∧
            (encoder_init c s).vBlocks = s.vBlocks := by
          rw [encoder_init, hclosed]
          simp
        rcases hsame with ⟨hencoded', hdecoded', hcells', hblocks'⟩
        refine ⟨⟨hcells', ?_, ho.iSamplesPerStep, ho.pEncoderCtx, hencoded'.trans hencoded,
          hdecoded'.trans hdecoded⟩, hblocks', ?_⟩
        · rw [ho.iSamplesStart, zero_mul]
        · rw [flushLoop, flushLoop, hencoded', hdecoded', if_pos (by omega), if_pos (by omega),
            encode_init]
    rcases hfresh with ⟨hflushing, hblocks, hloop⟩
    rcases flush_run hpos (iPackets+c.iDelay+1) (by omega) hflushing (by omega) with ⟨hok, herror⟩
    rw [hloop]
    rw [zero_add] at hok herror
    constructor
    · intro hroom
      rcases hok hroom with ⟨s', hrun, hblocks'⟩
      rw [hrun]
      refine ⟨_, rfl, ?_⟩
      show s'.vBlocks = _
      rw [hblocks', hblocks, h.vBlocks]
      simp only [zero_add]
    · intro hbig
      rw [herror hbig]
      rfl

/-! ## The stream as a whole -/

/-- `n` samples one behind the other. -/
def samplesFrom (iFirst n : ℕ) : List (Option ℕ) := (List.range n).map fun i => some (iFirst+i)

/-- The blocks with a sample in them, and those that push the last of these out. -/
def needed (c : Codec) (iTotal : ℕ) : ℕ :=
  if iTotal = 0 then 0 else (iTotal+c.step-1)/c.step+c.iDelay

/-- The `iTotal` samples behind the first `iSkipped` in blocks, then the partial rest, then
only what the delay of the encoder needs. -/
structure Reframed (c : Codec) (iSkipped iTotal : ℕ) (vBlocks : List (List (Option ℕ))) :
    Prop where
  count : vBlocks.length = needed c iTotal
  full : ∀ i < iTotal/c.step, vBlocks[i]? = some (samplesFrom (iSkipped+i*c.step) c.step)
  rest : 0 < iTotal%c.step → ∃ pRest, vBlocks[iTotal/c.step]? = some pRest ∧
    pRest.take (iTotal%c.step) =
      samplesFrom (iSkipped+iTotal/c.step*c.step) (iTotal%c.step)

theorem take_samples {f : ℕ → Option ℕ} {n l : ℕ} (hn : n ≤ l) :
    ((List.range l).map f).take n = (List.range n).map f := by
  rw [← List.map_take, List.take_range, min_eq_left hn]

theorem allBlocks_length (iPackets b : ℕ) :
    (allBlocks c m iPackets b).length = b+extra c iPackets b := by
  simp [allBlocks]

/-- Each block starts where the one in front of it ends, as far as there are samples. -/
theorem allBlocks_at {iEnd q : ℕ} (hcells : ∀ i < iEnd, m i = some (b*c.step+i))
    (hkept : iEnd+b*c.step = iTotal) (hq : q < b+extra c iPackets b) :
    ∃ pBlock, (allBlocks c m iPackets b)[q]? = some pBlock ∧ pBlock.length = c.step ∧
      ∀ n ≤ c.step, q*c.step+n ≤ iTotal → pBlock.take n = samplesFrom (q*c.step) n := by
  rcases lt_or_ge q b with hless | hmore
  · refine ⟨whole c q, ?_, by simp [whole], ?_⟩
    · rw [allBlocks, List.getElem?_append_left (by simpa using hless), List.getElem?_map,
        List.getElem?_range hless, Option.map_some]
    · intro n hn _
      rw [whole, take_samples hn, samplesFrom]
  · refine ⟨block m ((q-b)*c.step) c.step, ?_, by simp [block], ?_⟩
    · rw [allBlocks, List.getElem?_append_right (by simpa using hmore), List.length_map,
        List.length_range, List.getElem?_map, List.getElem?_range (by omega), Option.map_some]
    · intro n hn hle
      rw [block, take_samples hn, samplesFrom]
      apply List.map_congr_left
      intro i hi
      have hlt := List.mem_range.mp hi
      have hsplit : (q-b)*c.step+b*c.step = q*c.step := by
        rw [← add_mul, Nat.sub_add_cancel hmore]
      rw [hcells _ (by omega)]
      congr 1
      omega

theorem reframed_first {iSkipped : ℕ} {vBlocks : List (List (Option ℕ))} (hstep : 0 < c.step)
    (htotal : 0 < iTotal) (h : Reframed c iSkipped iTotal vBlocks) :
    ∃ pBlock, vBlocks[0]? = some pBlock ∧ pBlock.take 1 = samplesFrom iSkipped 1 := by
  rcases lt_or_ge iTotal c.step with hless | hmore
  · have hzero : iTotal/c.step = 0 := Nat.div_eq_of_lt hless
    have hrest : iTotal%c.step = iTotal := Nat.mod_eq_of_lt hless
    rcases h.rest (by omega) with ⟨pRest, hfirst, htake⟩
    rw [hzero] at hfirst
    rw [hrest, hzero, zero_mul, add_zero] at htake
    refine ⟨pRest, hfirst, ?_⟩
    have hone : pRest.take 1 = (pRest.take iTotal).take 1 := by
      rw [List.take_take, min_eq_left (by omega)]
    rw [hone, htake, samplesFrom, take_samples (by omega), samplesFrom]
  · have hpos : 0 < iTotal/c.step := Nat.div_pos hmore hstep
    refine ⟨_, h.full 0 hpos, ?_⟩
    rw [zero_mul, add_zero, samplesFrom, take_samples (by omega), samplesFrom]

/-- The samples of packets that are not encoded come first. -/
theorem skipped_none {iEnd iSkipped iAfter : ℕ} (hstep : 0 < c.step) (hafter : 0 < iAfter)
    (hcells : ∀ i < iEnd, m i = some (b*c.step+i)) (hkept : iEnd+b*c.step = iSkipped+iAfter)
    (h : Reframed c iSkipped iAfter (allBlocks c m iPackets b)) : iSkipped = 0 := by
  rcases reframed_first hstep hafter h with ⟨pBlock, hfirst, htake⟩
  have hlength : 0 < b+extra c iPackets b := by
    rw [← allBlocks_length (m := m)]
    exact (List.getElem?_eq_some_iff.mp hfirst).1
  rcases allBlocks_at hcells hkept hlength with ⟨pBlock', hfirst', _, htake'⟩
  have hsame : pBlock = pBlock' := Option.some.inj (hfirst.symm.trans hfirst')
  have hone := htake' 1 hstep (by omega)
  rw [← hsame, htake, zero_mul] at hone
  simpa [samplesFrom] using hone

theorem handed_le_ceil (hstep : 0 < c.step) (hle : iReached ≤ iTotal)
    (hwhole : 0 < iReached → v < iReached → c.step ≤ iReached) :
    handed c v iReached ≤ (iTotal+c.step-1)/c.step := by
  rw [handed]
  split_ifs with hmore
  · rw [max_le_iff, Nat.one_le_div_iff hstep]
    constructor
    · have := hwhole hmore.2 hmore.1
      omega
    · apply Nat.div_le_div_right
      omega
  · exact Nat.zero_le _

theorem handed_is_ceil (hstep : 0 < c.step) (hle : iReached ≤ iTotal)
    (hpos : 0 < iTotal) (h : handed c v iReached = (iTotal+c.step-1)/c.step) :
    (iTotal+c.step-1)/c.step = 1 := by
  have hceil : (iTotal-1)/c.step+1 = (iTotal+c.step-1)/c.step := by
    have heq : iTotal+c.step-1 = iTotal-1+c.step := by omega
    rw [heq, Nat.add_div_right _ hstep]
  rw [handed] at h
  split_ifs at h with hmore
  · have hmono : (iReached-1)/c.step ≤ (iTotal-1)/c.step := Nat.div_le_div_right (by omega)
    omega
  · exact absurd (hceil.trans h.symm) (Nat.succ_ne_zero _)

/-- With everything handed out in its place the blocks are right exactly when none of the
samples has been skipped and a packet has gone in for every block. -/
theorem reframed_iff {iEnd iSkipped iAfter : ℕ} (hstep : 0 < c.step)
    (hcells : ∀ i < iEnd, m i = some (handed c v iReached*c.step+i))
    (hkept : iEnd+handed c v iReached*c.step = iSkipped+iAfter)
    (hle : iReached ≤ iSkipped+iAfter)
    (hwhole : 0 < iReached → v < iReached → c.step ≤ iReached) (hpackets : 0 < iPackets) :
    Reframed c iSkipped iAfter (allBlocks c m iPackets (handed c v iReached)) ↔
      iSkipped = 0 ∧ iPackets = (iAfter+c.step-1)/c.step := by
  have hextra : extra c iPackets (handed c v iReached) =
      iPackets+c.iDelay-handed c v iReached := by
    rw [extra, if_neg (by omega)]
  constructor
  · intro h
    have hcount := h.count
    rw [allBlocks_length, hextra, needed] at hcount
    by_cases hafter : iAfter = 0
    · rw [if_pos hafter] at hcount
      omega
    · have hskipped := skipped_none hstep (by omega) hcells hkept h
      rw [if_neg hafter] at hcount
      rw [hskipped, zero_add] at hle
      have hbound := handed_le_ceil hstep hle hwhole
      constructor
      · exact hskipped
      · by_contra hpaced
        have hall : handed c v iReached = (iAfter+c.step-1)/c.step := by omega
        have hceil := handed_is_ceil hstep hle (by omega) hall
        omega
  · rintro ⟨hskipped, hpaced⟩
    rw [hskipped, zero_add] at hle hkept
    have hbound := handed_le_ceil hstep hle hwhole
    have hafter : iAfter ≠ 0 := by
      intro hzero
      rw [hzero, zero_add, Nat.div_eq_of_lt (by omega)] at hpaced
      omega
    have hlength : handed c v iReached+extra c iPackets (handed c v iReached) =
        iPackets+c.iDelay := by
      omega
    have hfloor : iAfter/c.step ≤ iPackets := by
      rw [hpaced]
      exact Nat.div_le_div_right (by omega)
    constructor
    · rw [allBlocks_length, hlength, needed, if_neg hafter, hpaced]
    · intro i hi
      rcases allBlocks_at hcells hkept (by omega : i < handed c v iReached+extra c iPackets _)
        with ⟨pBlock, hblock, hsize, htake⟩
      have hfits : (i+1)*c.step ≤ iAfter := (Nat.le_div_iff_mul_le hstep).mp hi
      rw [add_mul, one_mul] at hfits
      have hall := htake c.step le_rfl hfits
      rw [List.take_of_length_le hsize.le] at hall
      rw [hblock, hall, hskipped, zero_add]
    · intro hrest
      have hdiv := Nat.div_add_mod iAfter c.step
      have hmod := Nat.mod_lt iAfter hstep
      rw [mul_comm] at hdiv
      have hmore : iAfter/c.step+1 ≤ (iAfter+c.step-1)/c.step := by
        rw [Nat.le_div_iff_mul_le hstep, add_mul, one_mul]
        omega
      rcases allBlocks_at hcells hkept
        (by omega : iAfter/c.step < handed c v iReached+extra c iPackets _)
        with ⟨pBlock, hblock, hsize, htake⟩
      refine ⟨pBlock, hblock, ?_⟩
      rw [hskipped, zero_add]
      exact htake _ hmod.le hdiv.le

theorem ready_whole (h : Ready c s v iReached) (hpos : 0 < iReached)
    (hmore : v < iReached) : c.step ≤ iReached := by
  rcases h with ⟨_, hopen⟩ | ⟨_, hnone, _⟩
  · omega
  · rw [handed_past ⟨hmore, hpos⟩] at hnone
    omega

/-- After the construction or an end, or with both codecs opened beforehand. -/
structure Starts (c : Codec) (s : TranscoderAudio) : Prop where
  bBypass : s.bBypass = false
  vBlocks : s.vBlocks = []
  codecs : (s.pDecoderCtx = true ∧ s.iSamplesEnd = 0 ∧ s.iPlace = 0 ∧ s.iDecoded = 0 ∧
      s.iEncoded = 0 ∧ Opened c s 0) ∨
    (s.pDecoderCtx = false ∧ s.pEncoderCtx = none ∧ s.iDecoded ≤ s.iEncoded)

/-- The number of samples the first block waits for: of the block size before the encoder is
opened nothing is known. -/
def TranscoderAudio.iThreshold (s : TranscoderAudio) : ℤ := s.iSamplesPerStep+s.iSamplesStart

def before (iMinDts : ℤ) (ps : List AudioPacket) : List AudioPacket :=
  ps.takeWhile fun p => !counted iMinDts p

/-- From the first packet at or after the minimum on. -/
def after (iMinDts : ℤ) (ps : List AudioPacket) : List AudioPacket :=
  ps.dropWhile fun p => !counted iMinDts p

structure Reframable (c : Codec) (v iMinDts : ℤ) (ps : List AudioPacket) : Prop where
  roomy : RoomyRun c v iMinDts [] ps
  flushed : extra c (iPacketsOf iMinDts ps) (handed c v (reached iMinDts ps))*c.step ≤ iMaxLength
  clean : 0 < iPacketsOf iMinDts ps → total (before iMinDts ps) = 0
  paced : iPacketsOf iMinDts ps = (total (after iMinDts ps)+c.step-1)/c.step

section
variable {iMinDts : ℤ} {ps : List AudioPacket} {p : AudioPacket}

theorem total_split (iMinDts : ℤ) (ps : List AudioPacket) :
    total (before iMinDts ps)+total (after iMinDts ps) = total ps := by
  rw [before, after, ← total_append, List.takeWhile_append_dropWhile]

theorem after_none (h : iPacketsOf iMinDts ps = 0) : after iMinDts ps = [] := by
  rw [after, List.dropWhile_eq_nil_iff]
  intro p hp
  have hnot := List.countP_eq_zero.mp h p hp
  simpa using hnot

/-- The first packet opens the decoder. -/
theorem receiveAll_opens (hs : Starts c s) (iMinDts : ℤ) (p : AudioPacket)
    (ps : List AudioPacket) : ∃ s',
    receiveAll c iMinDts s (p::ps) = receiveAll c iMinDts s' (p::ps) ∧
      Inv c s.iThreshold iMinDts [] s' := by
  have hzero : handed c s.iThreshold (reached iMinDts []) = 0 := by
    rw [handed, if_neg]
    rintro ⟨_, hpos⟩
    exact absurd hpos (by simp [reached, total])
  rcases hs.codecs with ⟨hdecoder, hend, hplace, hdecoded, hencoded, ho⟩ |
    ⟨hdecoder, hencoder, _⟩
  · refine ⟨s, rfl, ?_, ?_⟩
    · rw [hzero]
      constructor
      · exact hs.bBypass
      · exact hdecoder
      · exact hplace
      · rw [hend, zero_mul]
        rfl
      · rw [hend]
        exact Nat.zero_le _
      · intro i hi
        omega
      · exact hs.vBlocks
      · exact hdecoded
      · rw [hencoded, Nat.zero_sub]
    · left
      rw [hzero]
      refine ⟨ho, Or.inl ?_⟩
      rw [TranscoderAudio.iThreshold, ho.iSamplesPerStep, ho.iSamplesStart]
      exact add_zero _
  · refine ⟨decoder_init s, ?_, ?_, ?_⟩
    · rw [receiveAll, receiveAll, receive, receive, hdecoder]
      simp [decoder_init, hs.bBypass]
    · rw [hzero]
      refine ⟨hs.bBypass, rfl, rfl, ?_, Nat.zero_le _, ?_, rfl, rfl, ?_⟩
      · rw [zero_mul]
        rfl
      · intro i hi
        exact absurd hi (Nat.not_lt_zero i)
      · rw [Nat.zero_sub]
        rfl
    · right
      exact ⟨hencoder, hzero, rfl⟩

theorem transcode_empty (hs : Starts c s) (iMinDts : ℤ) (pEnd : Routed) :
    ∃ s', transcode c iMinDts s [] pEnd = .ok s' ∧ s'.vBlocks = [] := by
  have hnone : ¬s.iEncoded < s.iDecoded := by
    rcases hs.codecs with ⟨_, _, _, hdecoded, _, _⟩ | ⟨_, _, hle⟩ <;> omega
  rw [transcode, receiveAll]
  simp only [bind, Except.bind]
  rw [receive_end, flushLoop, if_neg hnone]
  exact ⟨_, rfl, hs.vBlocks⟩

theorem reached_none (h : iPacketsOf iMinDts ps = 0) : reached iMinDts ps = 0 := by
  have hall : ps.reverse.dropWhile (fun p => !counted iMinDts p) = [] := by
    rw [List.dropWhile_eq_nil_iff]
    intro p hp
    have hnot := List.countP_eq_zero.mp h p (List.mem_reverse.mp hp)
    simpa using hnot
  rw [reached, hall]
  rfl

end

theorem reframed_empty (iSkipped : ℕ) : Reframed c iSkipped 0 [] := by
  constructor
  · rfl
  · intro i hi
    rw [Nat.zero_div] at hi
    omega
  · intro hi
    rw [Nat.zero_mod] at hi
    omega

theorem reframable_empty (hstep : 0 < c.step) (v iMinDts : ℤ) : Reframable c v iMinDts [] := by
  constructor
  · intro vs p ws hps
    exact absurd hps (by simp)
  · show 0*c.step ≤ iMaxLength
    rw [zero_mul]
    exact Nat.zero_le _
  · intro hpackets
    exact absurd hpackets (Nat.lt_irrefl 0)
  · show 0 = (0+c.step-1)/c.step
    rw [Nat.div_eq_of_lt (by omega)]

theorem audio_reframing_iff (c : Codec) (hstep : 0 < c.step) (s : TranscoderAudio)
    (hs : Starts c s) (iMinDts : ℤ) (ps : List AudioPacket) (hps : ∀ p ∈ ps, Decodes p)
    (pEnd : Routed) :
    (∃ s', transcode c iMinDts s ps pEnd = .ok s' ∧
      Reframed c (total (before iMinDts ps)) (total (after iMinDts ps)) s'.vBlocks) ↔
      Reframable c s.iThreshold iMinDts ps := by
  cases ps with
  | nil =>
    rcases transcode_empty hs iMinDts pEnd with ⟨s', hrun, hblocks⟩
    constructor
    · intro _
      exact reframable_empty hstep _ _
    · intro _
      refine ⟨s', hrun, ?_⟩
      rw [hblocks]
      exact reframed_empty _
  | cons p ps =>
    rcases receiveAll_opens hs iMinDts p ps with ⟨s₀, hopen, hinv⟩
    rcases receiveAll_inv hstep hinv hps with ⟨hok, herror⟩
    rw [transcode, hopen]
    by_cases hroomy : RoomyRun c s.iThreshold iMinDts [] (p::ps)
    · rcases hok hroomy with ⟨s₁, hrun, h⟩
      rw [List.nil_append] at h
      rcases receive_end_run h.held h.ready pEnd with ⟨hend, hbeyond⟩
      have hsplit := total_split iMinDts (p::ps)
      have hkept := h.held.kept
      rw [← hsplit] at hkept
      have hle := reached_le iMinDts (p::ps)
      rw [← hsplit] at hle
      simp only [hrun, bind, Except.bind]
      by_cases hfits : extra c (iPacketsOf iMinDts (p::ps))
          (handed c s.iThreshold (reached iMinDts (p::ps)))*c.step ≤ iMaxLength
      · rcases hend hfits with ⟨s', hlast, hblocks⟩
        constructor
        · rintro ⟨s'', hfinal, h''⟩
          have hsame : s' = s'' := Except.ok.inj (hlast.symm.trans hfinal)
          rw [← hsame, hblocks] at h''
          rcases Nat.eq_zero_or_pos (iPacketsOf iMinDts (p::ps)) with hnone | hpackets
          · refine ⟨hroomy, hfits, by omega, ?_⟩
            rw [hnone, after_none hnone]
            exact (reframable_empty hstep s.iThreshold iMinDts).paced
          · rcases (reframed_iff hstep h.held.cells hkept hle (ready_whole h.ready)
              hpackets).mp h'' with ⟨hclean, hpaced⟩
            exact ⟨hroomy, hfits, fun _ => hclean, hpaced⟩
        · intro h'
          refine ⟨s', hlast, ?_⟩
          rw [hblocks]
          rcases Nat.eq_zero_or_pos (iPacketsOf iMinDts (p::ps)) with hnone | hpackets
          · have hhanded : handed c s.iThreshold (reached iMinDts (p::ps)) = 0 := by
              rw [reached_none hnone, handed, if_neg (by omega)]
            rw [hnone, after_none hnone, hhanded]
            exact reframed_empty _
          · exact (reframed_iff hstep h.held.cells hkept hle (ready_whole h.ready)
              hpackets).mpr ⟨h'.clean hpackets, h'.paced⟩
      · rw [hbeyond (by omega)]
        constructor
        · rintro ⟨s', hfinal, _⟩
          cases hfinal
        · intro h'
          exact absurd h'.flushed hfits
    · rw [herror hroomy]
      constructor
      · rintro ⟨s', hrun, _⟩
        cases hrun
      · intro h
        exact absurd h.roomy hroomy

def exampleCodec (iDelay : ℕ) : Codec := ⟨2, 1024, 44100, iDelay⟩

def examplePacket (dts : ℤ) (iSamples : ℕ) : AudioPacket := ⟨dts, 0, 0, 100, 100, iSamples⟩

def exampleStart : TranscoderAudio where
  pSamplesNonAligned := fun _ => none
  iPlace := 0
  vBlocks := []
  iFrame := 0
  iUnit := 0
  iSamplesEnd := 0
  iSamplesStart := 0
  iSamplesPerStep := 0
  iSamplesTotal := 0
  iEncoded := 0
  iDecoded := 0
  iStartDts := -1
  bBypass := false
  pDecoderCtx := false
  pEncoderCtx := none
  vRouted := []

theorem exampleStart_starts (c : Codec) : Starts c exampleStart :=
  ⟨rfl, rfl, Or.inr ⟨rfl, rfl, le_rfl⟩⟩

/-- Frames of the size of a block, and an encoder that is one frame behind. -/
theorem audio_reframing_witness : ∃ s',
    transcode (exampleCodec 1) (-1) exampleStart [examplePacket 0 2048, examplePacket 2090 2048]
        ⟨4180, 0, 0⟩ = .ok s' ∧
      Reframed (exampleCodec 1)
        (total (before (-1) [examplePacket 0 2048, examplePacket 2090 2048]))
        (total (after (-1) [examplePacket 0 2048, examplePacket 2090 2048])) s'.vBlocks := by
  apply (audio_reframing_iff (exampleCodec 1) (by decide) exampleStart (exampleStart_starts _) (-1)
    [examplePacket 0 2048, examplePacket 2090 2048] (by decide) ⟨4180, 0, 0⟩).mpr
  constructor
  · rw [roomyRun_cons, roomyRun_cons]
    refine ⟨⟨by decide, fun _ _ => by decide⟩, ⟨by decide, fun _ _ => by decide⟩, ?_⟩
    intro vs p ws hps
    exact absurd hps (by simp)
  · decide
  · decide
  · decide

theorem audio_one_block : ((transcode (exampleCodec 0) (-1) exampleStart [examplePacket 0 2304]
    ⟨2351, 0, 0⟩).map fun s => s.vBlocks.length) = .ok 1 := by
  decide +kernel

/-- A frame of 1152 stereo samples for blocks of 1024: one packet has gone in and one has come
out, and the rest is never encoded. -/
theorem audio_rest_lost : ¬∃ s',
    transcode (exampleCodec 0) (-1) exampleStart [examplePacket 0 2304] ⟨2351, 0, 0⟩ = .ok s' ∧
      Reframed (exampleCodec 0) (total (before (-1) [examplePacket 0 2304]))
        (total (after (-1) [examplePacket 0 2304])) s'.vBlocks := by
  rintro ⟨s', hrun, h⟩
  have hone := audio_one_block
  rw [hrun] at hone
  have hlength : s'.vBlocks.length = 1 := Except.ok.inj hone
  have hcount := h.count
  rw [hlength] at hcount
  exact absurd hcount (by decide)

end Sirannon.AudioTranscoding
