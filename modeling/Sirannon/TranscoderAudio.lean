import Sirannon.Bits
import Sirannon.MachineInt

/-!
# Audio from the frames of a decoder to the blocks of an encoder

The decoded samples lie one behind the other in an array. The encoder takes
blocks of a fixed size from its front, and what is left is moved back to the
start. At the end blocks are given to the encoder until as many have come out
as packets have gone in.
-/

set_option autoImplicit false

namespace Sirannon.AudioTranscoding
open Bits MachineInt

/-- An access outside of the array, of which nothing is known, or an exception. -/
inductive Fault
  | outside
  | thrown (e : SirannonException)
  deriving DecidableEq, Repr

/-- The length of `pSamplesNonAligned`. -/
def iMaxLength : ℕ := 196000

/-- What the contexts of the codecs say: nothing comes out of the encoder for the first
`iDelay` blocks, and one frame for every block after these. -/
structure Codec where
  channels : ℕ
  framesize : ℕ
  samplerate : ℕ
  iDelay : ℕ
  deriving DecidableEq, Repr

def Codec.step (c : Codec) : ℕ := c.channels*c.framesize

/-- A media packet and what the decoder makes of it. -/
structure AudioPacket where
  dts : ℤ
  unitnumber : ℤ
  framenumber : ℤ
  size : ℤ
  iStatus : ℤ
  iSamples : ℕ
  deriving DecidableEq, Repr

structure Routed where
  dts : ℤ
  unitnumber : ℤ
  framenumber : ℤ
  deriving DecidableEq, Repr

/-- A sample is known by its place in all the decoder has put out, of which there are
`iPlace`; a cell that has not been written holds none. `vBlocks` are the blocks given to the
encoder. -/
structure TranscoderAudio where
  pSamplesNonAligned : ℕ → Option ℕ
  iPlace : ℕ
  vBlocks : List (List (Option ℕ))
  iFrame : ℤ
  iUnit : ℤ
  iSamplesEnd : ℕ
  iSamplesStart : ℕ
  iSamplesPerStep : ℤ
  iSamplesTotal : ℤ
  iEncoded : ℕ
  iDecoded : ℕ
  iStartDts : ℤ
  bBypass : Bool
  pDecoderCtx : Bool
  pEncoderCtx : Option ℕ
  vRouted : List Routed

def decoder_init (s : TranscoderAudio) : TranscoderAudio :=
  { s with
    iPlace := 0
    vBlocks := []
    iFrame := 0
    pDecoderCtx := true
    iSamplesEnd := 0
    iStartDts := -1
    iSamplesTotal := 0
    iDecoded := 0
    iEncoded := 0 }

def encoder_init (c : Codec) (s : TranscoderAudio) : TranscoderAudio :=
  match s.pEncoderCtx with
  | none => { s with pEncoderCtx := some 0, iSamplesPerStep := c.step, iSamplesStart := 0 }
  | some _ => s

def block (m : ℕ → Option ℕ) (iStart iStep : ℕ) : List (Option ℕ) :=
  (List.range iStep).map fun i => m (iStart+i)

/-- The encoder takes a block, and puts out a frame behind its delay. -/
def consume (c : Codec) (s : TranscoderAudio) : TranscoderAudio :=
  let iStep := s.iSamplesPerStep.toNat
  let iCalls := s.pEncoderCtx.getD 0
  let s :=
    { s with
      vBlocks := s.vBlocks ++ [block s.pSamplesNonAligned s.iSamplesStart iStep]
      pEncoderCtx := some (iCalls+1)
      iSamplesStart := s.iSamplesStart+iStep
      iSamplesTotal := s.iSamplesTotal+c.framesize }
  if iCalls < c.iDelay then s
  else
    { s with
      iEncoded := s.iEncoded+1
      iUnit := s.iUnit+1
      iFrame := s.iFrame+1
      vRouted := s.vRouted ++
        [⟨int32 (s.iStartDts+s.iSamplesTotal*90000/c.samplerate), s.iUnit, s.iFrame⟩] }

def encode (c : Codec) (s : TranscoderAudio) : Except Fault TranscoderAudio :=
  let s := encoder_init c s
  if iMaxLength < s.iSamplesStart+s.iSamplesPerStep.toNat then .error .outside
  else .ok (consume c s)

/-- Move back to start. -/
def moveBack (s : TranscoderAudio) : Except Fault TranscoderAudio :=
  if s.iSamplesEnd < s.iSamplesStart then .error .outside
  else
    .ok { s with
      pSamplesNonAligned := fun i =>
        if i < s.iSamplesEnd-s.iSamplesStart then s.pSamplesNonAligned (i+s.iSamplesStart)
        else s.pSamplesNonAligned i
      iSamplesEnd := s.iSamplesEnd-s.iSamplesStart
      iSamplesStart := 0 }

def encodeLoop (c : Codec) : ℕ → TranscoderAudio → Except Fault TranscoderAudio
  | 0, s => .ok s
  | fuel+1, s =>
    if s.iSamplesPerStep < (s.iSamplesEnd : ℤ)-s.iSamplesStart then do
      let s ← encode c s
      let s ← moveBack s
      encodeLoop c fuel s
    else .ok s

attribute [grind =] encodeLoop

/-- The samples of a packet behind those that wait. -/
def copySamples (s : TranscoderAudio) (iSamples : ℕ) : Except Fault TranscoderAudio :=
  if iMaxLength < s.iSamplesEnd+iSamples then .error .outside
  else
    .ok { s with
      pSamplesNonAligned := fun i =>
        if s.iSamplesEnd ≤ i ∧ i < s.iSamplesEnd+iSamples then some (s.iPlace+(i-s.iSamplesEnd))
        else s.pSamplesNonAligned i
      iPlace := s.iPlace+iSamples
      iSamplesEnd := s.iSamplesEnd+iSamples }

def ffmpegError (iStatus size : ℤ) : SirannonException :=
  ⟨s!"FFmpegError: Decoder did not consume entire frame: ({iStatus}) != ({size})"⟩

/-- The state in which the loop after a packet starts. -/
def begun (s : TranscoderAudio) (p : AudioPacket) : TranscoderAudio :=
  let s := if s.iStartDts < 0 then { s with iStartDts := p.dts } else s
  { s with iDecoded := s.iDecoded+1 }

/-- A media packet. -/
def receive (c : Codec) (iMinDts : ℤ) (s : TranscoderAudio) (p : AudioPacket) :
    Except Fault TranscoderAudio :=
  if s.bBypass then
    if p.dts < iMinDts then .ok s
    else .ok { s with vRouted := s.vRouted ++ [⟨p.dts, p.unitnumber, p.framenumber⟩] }
  else
    let s := if s.pDecoderCtx then s else decoder_init s
    if p.iStatus ≤ 0 then .ok s
    else if p.iStatus ≠ p.size then .error (.thrown (ffmpegError p.iStatus p.size))
    else do
      let s ← copySamples s p.iSamples
      -- the samples stay although the packet is not encoded
      if p.dts < iMinDts then .ok s
      else
        let s := begun s p
        encodeLoop c (s.iSamplesEnd+1) s

/-- Manage encoder delay. -/
def flushLoop (c : Codec) : ℕ → TranscoderAudio → Except Fault TranscoderAudio
  | 0, s => .ok s
  | fuel+1, s =>
    if s.iEncoded < s.iDecoded then do
      let s ← encode c s
      flushLoop c fuel s
    else .ok s

def encode_ctrl (c : Codec) (p : Routed) (s : TranscoderAudio) : TranscoderAudio :=
  let dts :=
    if s.bBypass then p.dts else int32 (s.iStartDts+s.iSamplesTotal*90000/c.samplerate)
  { s with iUnit := s.iUnit+1, vRouted := s.vRouted ++ [⟨dts, s.iUnit, s.iFrame⟩] }

/-- An end or a reset. -/
def receive_end (c : Codec) (s : TranscoderAudio) (p : Routed) : Except Fault TranscoderAudio := do
  let s ← flushLoop c (s.iDecoded+c.iDelay+1) s
  return encode_ctrl c p { s with pDecoderCtx := false, pEncoderCtx := none }

def receiveAll (c : Codec) (iMinDts : ℤ) (s : TranscoderAudio) :
    List AudioPacket → Except Fault TranscoderAudio
  | [] => .ok s
  | p::ps => do
    let s ← receive c iMinDts s p
    receiveAll c iMinDts s ps

/-- A stream to its end. -/
def transcode (c : Codec) (iMinDts : ℤ) (s : TranscoderAudio) (ps : List AudioPacket)
    (pEnd : Routed) : Except Fault TranscoderAudio := do
  let s ← receiveAll c iMinDts s ps
  receive_end c s pEnd

/-! ## The buffer between the codecs -/

/-- The block at a multiple of the block size. -/
def whole (c : Codec) (j : ℕ) : List (Option ℕ) :=
  (List.range c.step).map fun i => some (j*c.step+i)

/-- After `b` blocks the samples behind them wait from the start of the array on. -/
structure Held (c : Codec) (s : TranscoderAudio) (iTotal iPackets b : ℕ) : Prop where
  bBypass : s.bBypass = false
  pDecoderCtx : s.pDecoderCtx = true
  iPlace : s.iPlace = iTotal
  kept : s.iSamplesEnd+b*c.step = iTotal
  room : s.iSamplesEnd ≤ iMaxLength
  cells : ∀ i < s.iSamplesEnd, s.pSamplesNonAligned i = some (b*c.step+i)
  vBlocks : s.vBlocks = (List.range b).map (whole c)
  iDecoded : s.iDecoded = iPackets
  iEncoded : s.iEncoded = b-c.iDelay

structure Opened (c : Codec) (s : TranscoderAudio) (b : ℕ) : Prop where
  pEncoderCtx : s.pEncoderCtx = some b
  iSamplesPerStep : s.iSamplesPerStep = c.step
  iSamplesStart : s.iSamplesStart = 0

variable {c : Codec} {s : TranscoderAudio} {iTotal iPackets b : ℕ}

theorem block_whole {m : ℕ → Option ℕ} {iStart j : ℕ}
    (h : ∀ i < c.step, m (iStart+i) = some (j*c.step+i)) :
    block m iStart c.step = whole c j := by
  rw [block, whole]
  apply List.map_congr_left
  intro i hi
  exact h i (List.mem_range.mp hi)

theorem encoder_init_opened (h : Opened c s b) : encoder_init c s = s := by
  rw [encoder_init, h.pEncoderCtx]

theorem encoder_init_closed (h : s.pEncoderCtx = none) : Opened c (encoder_init c s) 0 := by
  rw [encoder_init, h]
  exact ⟨rfl, rfl, rfl⟩

theorem encoder_init_held (h : Held c s iTotal iPackets b) :
    Held c (encoder_init c s) iTotal iPackets b := by
  rw [encoder_init]
  cases s.pEncoderCtx with
  | none => exact ⟨h.bBypass, h.pDecoderCtx, h.iPlace, h.kept, h.room, h.cells, h.vBlocks,
      h.iDecoded, h.iEncoded⟩
  | some k => exact h

/-- What `consume` leaves alone, and what it does to the counters. -/
theorem consume_run (k : ℕ) (hk : s.pEncoderCtx = some k) (hs : s.iEncoded = k-c.iDelay) :
    (consume c s).pEncoderCtx = some (k+1) ∧ (consume c s).iEncoded = k+1-c.iDelay ∧
      (consume c s).vBlocks = s.vBlocks ++
        [block s.pSamplesNonAligned s.iSamplesStart s.iSamplesPerStep.toNat] ∧
      (consume c s).iSamplesStart = s.iSamplesStart+s.iSamplesPerStep.toNat := by
  rw [consume, hk]
  dsimp only [Option.getD_some]
  by_cases hdelay : k < c.iDelay
  · rw [if_pos hdelay]
    dsimp only
    refine ⟨rfl, ?_, rfl, rfl⟩
    omega
  · rw [if_neg hdelay]
    dsimp only
    refine ⟨rfl, ?_, rfl, rfl⟩
    omega

theorem consume_keeps : (consume c s).bBypass = s.bBypass ∧
    (consume c s).pDecoderCtx = s.pDecoderCtx ∧ (consume c s).iPlace = s.iPlace ∧
    (consume c s).iSamplesEnd = s.iSamplesEnd ∧
    (consume c s).pSamplesNonAligned = s.pSamplesNonAligned ∧
    (consume c s).iDecoded = s.iDecoded ∧
    (consume c s).iSamplesPerStep = s.iSamplesPerStep := by
  rw [consume]
  dsimp only
  split_ifs <;> simp

/-- With a block in the buffer it is this block that is given to the encoder. -/
theorem encode_moved (h : Held c s iTotal iPackets b) (ho : Opened c s b)
    (hfull : c.step ≤ s.iSamplesEnd) :
    ∃ s', ((encode c s) >>= moveBack) = .ok s' ∧ Held c s' iTotal iPackets (b+1) ∧
      Opened c s' (b+1) ∧ s'.iSamplesEnd = s.iSamplesEnd-c.step := by
  have hroom := h.room
  have hstep : s.iSamplesPerStep.toNat = c.step := by
    rw [ho.iSamplesPerStep]
    rfl
  rcases consume_run b ho.pEncoderCtx h.iEncoded with ⟨hcalls, hencoded, hblocks, hstart⟩
  rcases consume_keeps (c := c) (s := s)
    with ⟨hbypass, hdecoder, hplace, hend, hcells, hdecoded, hper⟩
  rw [ho.iSamplesStart, hstep] at hblocks hstart
  rw [zero_add] at hstart
  have hencode : encode c s = .ok (consume c s) := by
    rw [encode, encoder_init_opened ho, ho.iSamplesStart, hstep, if_neg (by omega)]
  have hmove := moveBack.eq_1 (consume c s)
  rw [hend, hstart, if_neg (by omega)] at hmove
  simp only [hencode, bind, Except.bind, hmove]
  refine ⟨_, rfl, ?_, ⟨hcalls, ?_, rfl⟩, rfl⟩
  · have hkept := h.kept
    constructor
    · exact hbypass.trans h.bBypass
    · exact hdecoder.trans h.pDecoderCtx
    · exact hplace.trans h.iPlace
    · show s.iSamplesEnd-c.step+(b+1)*c.step = iTotal
      rw [add_mul, one_mul]
      omega
    · show s.iSamplesEnd-c.step ≤ iMaxLength
      omega
    · intro i hi
      replace hi : i < s.iSamplesEnd-c.step := hi
      dsimp only
      rw [if_pos hi, hcells, h.cells _ (by omega), add_mul, one_mul]
      congr 1
      omega
    · dsimp only
      rw [hblocks, h.vBlocks, List.range_succ, List.map_append, List.map_singleton,
        block_whole (j := b)]
      intro i hi
      rw [zero_add]
      exact h.cells i (by omega)
    · exact hdecoded.trans h.iDecoded
    · exact hencoded
  · exact hper.trans ho.iSamplesPerStep

theorem div_pred_step {m d : ℕ} (hd : 0 < d) (h : d < m) : (m-d-1)/d+1 = (m-1)/d := by
  have heq : m-1 = m-d-1+d := by omega
  rw [heq, Nat.add_div_right _ hd]

theorem loop_step {s' : TranscoderAudio} (fuel : ℕ)
    (hmore : s.iSamplesPerStep < (s.iSamplesEnd : ℤ)-s.iSamplesStart)
    (hrun : ((encode c s) >>= moveBack) = .ok s') :
    encodeLoop c (fuel+1) s = encodeLoop c fuel s' := by
  have hassoc : encodeLoop c (fuel+1) s = ((encode c s) >>= moveBack) >>= encodeLoop c fuel := by
    rw [encodeLoop, if_pos hmore, bind_assoc]
  rw [hassoc, hrun]
  rfl

/-- The loop hands out all blocks but one that is just full. -/
theorem loop_opened (hstep : 0 < c.step) (fuel : ℕ) (hfuel : s.iSamplesEnd < fuel)
    (h : Held c s iTotal iPackets b) (ho : Opened c s b) :
    ∃ s', encodeLoop c fuel s = .ok s' ∧
      Held c s' iTotal iPackets (b+(s.iSamplesEnd-1)/c.step) ∧
      Opened c s' (b+(s.iSamplesEnd-1)/c.step) := by
  induction fuel generalizing s b with
  | zero => omega
  | succ fuel ih =>
    have hper := ho.iSamplesPerStep
    have hstart := ho.iSamplesStart
    by_cases hmore : s.iSamplesPerStep < (s.iSamplesEnd : ℤ)-s.iSamplesStart
    · rcases encode_moved h ho (by omega) with ⟨s', hrun, h', ho', hend⟩
      rcases ih (by omega) h' ho' with ⟨s'', hrest, h'', ho''⟩
      have hcount : b+1+(s'.iSamplesEnd-1)/c.step = b+(s.iSamplesEnd-1)/c.step := by
        rw [hend, ← div_pred_step hstep (by omega : c.step < s.iSamplesEnd)]
        omega
      rw [hcount] at h'' ho''
      exists s''
      constructor
      · rw [loop_step fuel hmore hrun]
        exact hrest
      · exact ⟨h'', ho''⟩
    · have hnone : (s.iSamplesEnd-1)/c.step = 0 := by
        apply Nat.div_eq_of_lt
        omega
      rw [encodeLoop, if_neg hmore, hnone]
      exact ⟨s, rfl, h, ho⟩

/-! ## How many blocks have been handed out -/

/-- Of the first `iTotal` samples, when a packet that is encoded ends with them. The first
block is handed out once there are more than `v` samples. -/
def handed (c : Codec) (v : ℤ) (iTotal : ℕ) : ℕ :=
  if v < iTotal ∧ 0 < iTotal then max 1 ((iTotal-1)/c.step) else 0

/-- The encoder has been opened after so many samples that they made a block, or it is still
closed and its block size is what it was at the start. -/
def Ready (c : Codec) (s : TranscoderAudio) (v : ℤ) (iReached : ℕ) : Prop :=
  (Opened c s (handed c v iReached) ∧
    (v = c.step ∨ v < iReached ∧ 0 < iReached ∧ c.step ≤ iReached)) ∨
  (s.pEncoderCtx = none ∧ handed c v iReached = 0 ∧ s.iSamplesPerStep+s.iSamplesStart = v)

variable {v : ℤ} {iReached : ℕ}

theorem handed_step (hstep : 0 < c.step) (iTotal : ℕ) :
    handed c c.step iTotal = (iTotal-1)/c.step := by
  rw [handed]
  by_cases hmore : c.step < iTotal
  · rw [if_pos ⟨by omega, by omega⟩]
    have hone : 1 ≤ (iTotal-1)/c.step := (Nat.one_le_div_iff hstep).mpr (by omega)
    omega
  · rw [if_neg (by omega)]
    exact (Nat.div_eq_of_lt (by omega)).symm

theorem handed_past (h : v < iTotal ∧ 0 < iTotal) :
    handed c v iTotal = max 1 ((iTotal-1)/c.step) := by
  rw [handed, if_pos h]

theorem handed_none (h : ¬v < iTotal) : handed c v iTotal = 0 := by
  rw [handed, if_neg (by omega)]

/-- The blocks of the samples that wait come on top of those handed out before. -/
theorem handed_grow (hstep : 0 < c.step) {iEnd : ℕ} (hle : iReached ≤ iTotal)
    (hkept : iEnd+handed c v iReached*c.step = iTotal)
    (hopen : v = c.step ∨ v < iReached ∧ 0 < iReached ∧ c.step ≤ iReached) :
    handed c v iReached+(iEnd-1)/c.step = handed c v iTotal := by
  have hdiv : (iReached-1)/c.step*c.step ≤ iReached-1 := Nat.div_mul_le_self _ _
  rcases Nat.eq_zero_or_pos iEnd with hzero | hpos
  · rw [hzero, Nat.zero_sub, Nat.zero_div, add_zero]
    rw [hzero, zero_add] at hkept
    rcases hopen with hv | ⟨hv, hpos, hreached⟩
    · rw [hv, handed_step hstep] at hkept
      rw [hv, handed_step hstep, handed_step hstep]
      have hnone : iReached = 0 := by omega
      have htotal : iTotal = 0 := by
        rw [hnone, Nat.zero_sub, Nat.zero_div, zero_mul] at hkept
        omega
      rw [hnone, htotal]
    · rw [handed_past ⟨hv, hpos⟩] at hkept ⊢
      have hone : max 1 ((iReached-1)/c.step) = 1 := by
        by_contra hmore
        have hmax : max 1 ((iReached-1)/c.step) = (iReached-1)/c.step := by omega
        rw [hmax] at hkept
        omega
      rw [hone, one_mul] at hkept
      rw [hone, handed_past ⟨by omega, by omega⟩, ← hkept, Nat.div_eq_of_lt (by omega)]
      rfl
  · have hdivided : handed c v iReached+(iEnd-1)/c.step = (iTotal-1)/c.step := by
      have hsum : iTotal-1 = iEnd-1+handed c v iReached*c.step := by omega
      rw [hsum, Nat.add_mul_div_right _ _ hstep]
      omega
    rw [hdivided]
    rcases hopen with hv | ⟨hv, hpos, hreached⟩
    · rw [hv, handed_step hstep]
    · have hone : 1 ≤ (iTotal-1)/c.step := by
        rw [← hdivided, handed_past ⟨hv, hpos⟩]
        exact Nat.le_add_right_of_le (le_max_left _ _)
      rw [handed_past ⟨by omega, by omega⟩, max_eq_right hone]

theorem encode_init : encode c s = encode c (encoder_init c s) := by
  rw [encode, encode]
  cases hctx : s.pEncoderCtx with
  | none => rw [encoder_init_opened (encoder_init_closed hctx)]
  | some k =>
    have hsame : encoder_init c s = s := by rw [encoder_init, hctx]
    rw [hsame, hsame]

theorem ready_grows (hle : iReached ≤ iTotal)
    (hopen : v = c.step ∨ v < iReached ∧ 0 < iReached ∧ c.step ≤ iReached) :
    v = c.step ∨ v < iTotal ∧ 0 < iTotal ∧ c.step ≤ iTotal := by
  rcases hopen with hv | ⟨hv, hpos, hreached⟩
  · exact Or.inl hv
  · right
    omega

/-- The loop after a packet: with a whole block when the encoder is opened. -/
theorem loop_run (hstep : 0 < c.step) (h : Held c s iTotal iPackets (handed c v iReached))
    (hr : Ready c s v iReached) (hle : iReached ≤ iTotal) (hwhole : v < iTotal → c.step ≤ iTotal) :
    ∃ s', encodeLoop c (s.iSamplesEnd+1) s = .ok s' ∧
      Held c s' iTotal iPackets (handed c v iTotal) ∧ Ready c s' v iTotal := by
  rcases hr with ⟨ho, hopen⟩ | ⟨hclosed, hnone, hthreshold⟩
  · rcases loop_opened hstep (s.iSamplesEnd+1) (by omega) h ho with ⟨s', hrun, h', ho'⟩
    rw [handed_grow hstep hle h.kept hopen] at h' ho'
    exact ⟨s', hrun, h', Or.inl ⟨ho', ready_grows hle hopen⟩⟩
  · rw [hnone] at h
    have hkept := h.kept
    rw [zero_mul, add_zero] at hkept
    by_cases hmore : v < iTotal
    · have hfull := hwhole hmore
      have hsame : (encoder_init c s).iSamplesEnd = s.iSamplesEnd := by
        rw [encoder_init, hclosed]
      rcases encode_moved (encoder_init_held h) (encoder_init_closed hclosed)
        (by omega) with ⟨s', hrun, h', ho', hend⟩
      rw [hsame] at hend
      rcases loop_opened hstep s.iSamplesEnd (by omega) h' ho' with ⟨s'', hrest, h'', ho''⟩
      have hcount : 0+1+(s'.iSamplesEnd-1)/c.step = handed c v iTotal := by
        rw [handed_past ⟨hmore, by omega⟩, hend, hkept]
        rcases Nat.eq_or_lt_of_le hfull with heq | hlt
        · rw [← heq, Nat.div_eq_of_lt (by omega : c.step-1 < c.step), Nat.sub_self, Nat.zero_sub,
            Nat.zero_div]
          rfl
        · rw [← div_pred_step hstep hlt, max_eq_right (Nat.le_add_left 1 _), zero_add, add_comm]
      rw [hcount] at h'' ho''
      rw [← encode_init] at hrun
      exists s''
      constructor
      · rw [loop_step s.iSamplesEnd (by omega) hrun]
        exact hrest
      · exact ⟨h'', Or.inl ⟨ho'', Or.inr ⟨hmore, by omega, hfull⟩⟩⟩
    · exists s
      constructor
      · rw [encodeLoop, if_neg (by omega)]
      · rw [Ready, handed_none hmore]
        exact ⟨h, Or.inr ⟨hclosed, rfl, hthreshold⟩⟩

/-- A block that is not there is taken, and what lies behind it cannot be moved back. -/
theorem loop_fails (h : Held c s iTotal iPackets (handed c v iReached))
    (hr : Ready c s v iReached) (hle : iReached ≤ iTotal) (hmore : v < iTotal)
    (hshort : iTotal < c.step) :
    encodeLoop c (s.iSamplesEnd+1) s = .error .outside := by
  rcases hr with ⟨ho, hopen⟩ | ⟨hclosed, hnone, hthreshold⟩
  · omega
  rw [hnone] at h
  have hkept := h.kept
  rw [zero_mul, add_zero] at hkept
  have hinit := encoder_init_held (c := c) h
  have ho := encoder_init_closed (c := c) hclosed
  have hend : (encoder_init c s).iSamplesEnd = s.iSamplesEnd := by rw [encoder_init, hclosed]
  have hper : (encoder_init c s).iSamplesPerStep.toNat = c.step := by
    rw [ho.iSamplesPerStep]
    rfl
  rw [encodeLoop, if_pos (by omega), encode_init, encode, encoder_init_opened ho,
    ho.iSamplesStart, hper, zero_add]
  by_cases hroom : iMaxLength < c.step
  · rw [if_pos hroom]
    rfl
  · rcases consume_run 0 ho.pEncoderCtx hinit.iEncoded with ⟨_, _, _, hstart⟩
    have hkeep := (consume_keeps (c := c) (s := encoder_init c s)).2.2.2.1
    rw [ho.iSamplesStart, hper, zero_add] at hstart
    rw [if_neg hroom]
    simp only [bind, Except.bind]
    rw [moveBack, hstart, hkeep, hend, if_pos (by omega)]

end Sirannon.AudioTranscoding
