import Sirannon.MachineInt
import Sirannon.MediaPacket
import Sirannon.Rescale

/-!
# Time stamps over RTP

Without the header extension the time of a packet travels in the RTP time stamp
alone. The transmitter scales the time of audio to the sample rate and adds the
differences to the time stamp; the receiver scales the distance to the first
packet back, and takes a packet as the start of a frame when this time changes.
-/

set_option autoImplicit false

namespace Sirannon.RTP
open Media MachineInt Bits Rescale

/-- The time base of every descriptor. -/
def timebase : AVRational := ⟨1, 90000⟩

/-! ## The RTP library -/

structure RTPPacket where
  timestamp : ℕ
  seqnr : ℕ
  payloadType : ℕ
  marker : Bool
  payload : List UInt8
  deriving DecidableEq, Repr

structure RTPSession where
  timestamp : ℕ
  seqnr : ℕ
  deriving DecidableEq, Repr

def RTPSession.IncrementTimestamp (s : RTPSession) (inc : ℕ) : RTPSession :=
  { s with timestamp := (s.timestamp+inc)%2^32 }

def RTPSession.SendPacket (s : RTPSession) (data : List UInt8) (pt : ℤ) (mark : Bool)
    (timestampinc : ℕ) : RTPPacket × RTPSession :=
  (⟨s.timestamp, s.seqnr, (pt%256).toNat, mark, data⟩,
    ⟨(s.timestamp+timestampinc)%2^32, (s.seqnr+1)%2^16⟩)

/-- A packet as the library hands it over, with the sequence number it has extended. -/
structure Received extends RTPPacket where
  extendedSequenceNumber : ℕ
  deriving DecidableEq, Repr

/-- Every packet arrives, once and in order. -/
def Delivered (vSent : List RTPPacket) (vReceived : List Received) : Prop :=
  vReceived.map Received.toRTPPacket = vSent

/-! ## The transmitter -/

structure SirannonRTPTransmitter where
  pSession : RTPSession
  iPrevTiming : ℤ
  bPts : Bool
  bForce : Bool
  iForce : ℤ
  iPayload : ℤ
  deriving DecidableEq, Repr

/-- The decoding and the presentation time that are sent, scaled for audio. -/
def convertTimestamps (pPckt : MediaPacket) : ℤ × ℤ :=
  match pPckt.desc with
  | some desc =>
    if pPckt.content = .audio ∧ pPckt.mux ≠ .TS then
      (int32 (av_rescale_q pPckt.dts timebase ⟨1, desc.samplerate⟩),
        int32 (av_rescale_q pPckt.pts timebase ⟨1, desc.samplerate⟩))
    else (pPckt.dts, pPckt.pts)
  | none => (pPckt.dts, pPckt.pts)

def calculate_payload (iPayload : ℤ) (pPckt : MediaPacket) : ℤ :=
  if iPayload < 0 then
    if pPckt.mux = .TS then 33
    else if pPckt.codec = .mp1a ∨ pPckt.codec = .mp2a then 14
    else if pPckt.codec = .mp1v ∨ pPckt.codec = .mp2v then 32
    else if pPckt.content = .video then 96
    else if pPckt.content = .audio then 97
    else 96
  else iPayload

/-- The packet on the wire, the packet that is routed on, and the transmitter after it. -/
def SirannonRTPTransmitter.receive (t : SirannonRTPTransmitter) (pPckt : MediaPacket) :
    RTPPacket × MediaPacket × SirannonRTPTransmitter :=
  let (iDts, iPts) := convertTimestamps pPckt
  let iTiming := if t.bPts then iPts else iDts
  let pSession :=
    if 0 ≤ t.iPrevTiming ∧ iTiming ≠ t.iPrevTiming then
      t.pSession.IncrementTimestamp (uint32 (iTiming-t.iPrevTiming))
    else t.pSession
  let pSession :=
    if t.bForce then { pSession with seqnr := ((pPckt.unitnumber+t.iForce)%2^16).toNat }
    else pSession
  let (pRTP, pSession) :=
    pSession.SendPacket pPckt.bytes (calculate_payload t.iPayload pPckt) pPckt.frameend 0
  (pRTP, { pPckt with dts := int32 (pPckt.dts+3600) },
    { t with pSession := pSession, iPrevTiming := iTiming })

def transmit (t : SirannonRTPTransmitter) : List MediaPacket → List RTPPacket
  | [] => []
  | p::ps => (t.receive p).1 :: transmit (t.receive p).2.2 ps

/-! ## The receiver -/

structure RTPReceiver where
  pDesc : MediaDescriptor
  inc : ℕ
  route : ℤ
  iStream : ℤ
  iVideo : ℤ
  iAudio : ℤ
  iLastDts : ℤ
  iFrame : ℤ
  iFirstUnit : ℤ
  iFirstDts : ℤ
  bFirst : Bool
  iBaseDts : ℤ
  deriving DecidableEq, Repr

def decode_additional (r : RTPReceiver) (pckt : MediaPacket) : MediaPacket :=
  { pckt with
    desc := some r.pDesc
    pts := pckt.dts
    xstream := r.iStream
    xroute := match pckt.content with
      | .video => r.iVideo
      | .audio => r.iAudio
      | .mixed => r.iVideo }

def decodeDescriptor (r : RTPReceiver) (pPckt : MediaPacket) : MediaPacket :=
  { pPckt with
    type := .media
    content := r.pDesc.content
    mux := .RTP
    codec := r.pDesc.codec
    xroute := r.route }

/-- Relative start points. -/
def RTPReceiver.startAt (r : RTPReceiver) (pRTP : Received) : RTPReceiver :=
  if r.bFirst then
    { r with
      iFirstDts := int32 pRTP.timestamp
      iFirstUnit := int32 pRTP.extendedSequenceNumber
      bFirst := false }
  else r

def deduce (r : RTPReceiver) (pRTP : Received) : MediaPacket :=
  let pckt := MediaPacket.new .media .mixed pRTP.payload.length
  let pckt :=
    { pckt with
      unitnumber := int32 (pRTP.extendedSequenceNumber-r.iFirstUnit)
      dts := int32 (pRTP.timestamp-r.iFirstDts)
      subframenumber := 0 }
  decodeDescriptor r (decode_additional r pckt)

/-- Translate timestamp for audio. -/
def translate (r : RTPReceiver) (pckt : MediaPacket) : Except SirannonException MediaPacket :=
  if pckt.content = .audio ∧ pckt.mux ≠ .TS then
    if r.pDesc.samplerate = 0 then .error (valueError "Samplerate is zero")
    else
      let dts := int32 (av_rescale_q pckt.dts ⟨1, r.pDesc.samplerate⟩ timebase)
      .ok { pckt with dts := dts, pts := dts }
  else .ok pckt

/-- Detect a difference in timestamp as a new frame. -/
def RTPReceiver.detect (r : RTPReceiver) (pckt : MediaPacket) : MediaPacket × RTPReceiver :=
  let dts := int32 (pckt.dts+r.iBaseDts)
  let pckt := { pckt with dts := dts, pts := dts }
  if dts ≠ r.iLastDts then
    ({ pckt with framestart := true },
      { r with
        inc := if 0 ≤ r.iLastDts ∧ r.inc = 0 then uint32 (dts-r.iLastDts) else r.inc
        iFrame := r.iFrame+1
        iLastDts := dts })
  else ({ pckt with framestart := false }, r)

def RTPReceiver.number (r : RTPReceiver) (pRTP : Received) (pckt : MediaPacket) : MediaPacket :=
  { pckt with framenumber := r.iFrame, frameend := pRTP.marker, inc := int32 r.inc }

/-- What the loop does with an RTP packet that has no header extension. -/
def RTPReceiver.receive (r : RTPReceiver) (pRTP : Received) :
    Except SirannonException (MediaPacket × RTPReceiver) := do
  let r := r.startAt pRTP
  let pckt ← translate r (deduce r pRTP)
  let (pckt, r) := r.detect pckt
  let pckt ← (r.number pRTP pckt).push_back pRTP.payload
  return (pckt, r)

/-- The packets of a poll, one after the other. -/
def process (r : RTPReceiver) :
    List Received → Except SirannonException (List MediaPacket × RTPReceiver)
  | [] => .ok ([], r)
  | pRTP::vRTP => do
    let (pckt, r) ← r.receive pRTP
    let (vRouted, r) ← process r vRTP
    return (pckt::vRouted, r)

def processAll (r : RTPReceiver) :
    List (List Received) → Except SirannonException (List MediaPacket × RTPReceiver)
  | [] => .ok ([], r)
  | vRTP::polls => do
    let (vRouted, r) ← process r vRTP
    let (vRest, r) ← processAll r polls
    return (vRouted ++ vRest, r)

/-! ## One stream -/

inductive Kind
  | video
  | audio (samplerate : ℤ)

/-- A sample rate is a positive `int`. -/
def Kind.Legal : Kind → Prop
  | .video => True
  | .audio samplerate => 0 < samplerate ∧ samplerate ≤ INT_MAX

def Kind.Describes : Kind → MediaDescriptor → Prop
  | .video, desc => desc.content = .video
  | .audio samplerate, desc => desc.content = .audio ∧ desc.samplerate = samplerate

/-- Transport streams and packets that have lost their descriptor are not of a kind. -/
def Kind.Carries : Kind → MediaPacket → Prop
  | .video, p => p.content = .video
  | .audio samplerate, p =>
    p.content = .audio ∧ p.mux ≠ .TS ∧ ∃ desc, p.desc = some desc ∧ desc.samplerate = samplerate

/-- A time on the scale of the RTP time stamp. -/
def Kind.timing : Kind → ℤ → ℤ
  | .video, x => x
  | .audio samplerate, x => av_rescale_q x timebase ⟨1, samplerate⟩

/-- A distance of RTP time stamps on the scale of the time stamps of packets. -/
def Kind.restored : Kind → ℤ → ℤ
  | .video, x => x
  | .audio samplerate, x => av_rescale_q x ⟨1, samplerate⟩ timebase

def Kind.Close : Kind → ℤ → ℤ → Prop
  | .video, x, y => y = x
  | .audio samplerate, x, y => |y-x| ≤ 90000/samplerate+1

def firstDts (ps : List MediaPacket) : ℤ := (ps.head?.map fun p => p.dts).getD 0

/-- Which of the values differ from the value in front of them. -/
def opens {α : Type} [DecidableEq α] : Option α → List α → List Bool
  | _, [] => []
  | prev, x::xs => decide (prev ≠ some x) :: opens (some x) xs

structure Kind.Restores (k : Kind) (ps : List MediaPacket) (vSent : List RTPPacket)
    (vRouted : List MediaPacket) : Prop where
  times : List.Forall₂
    (fun p q => k.Close (p.dts-firstDts ps) (q.dts-firstDts vRouted)) ps vRouted
  frames : vRouted.map (fun q => q.framestart) = opens none (vSent.map RTPPacket.timestamp)

/-- The distance to the first packet as the time stamps carry it. -/
def Kind.elapsed (k : Kind) (ps : List MediaPacket) (p : MediaPacket) : ℤ :=
  k.timing p.dts-k.timing (firstDts ps)

/-- No scaled distance leaves 31 bits, and two packets one behind the other whose time
stamps differ do not fall together when these are scaled back. -/
structure Kind.Separates (k : Kind) (ps : List MediaPacket) : Prop where
  fits : ∀ p ∈ ps, k.restored (k.elapsed ps p) < 2^31
  distinct : ps.IsChain fun p q => k.timing p.dts ≠ k.timing q.dts →
    k.restored (k.elapsed ps p) ≠ k.restored (k.elapsed ps q)

/-- Before the first packet, with the presentation time off. -/
structure SirannonRTPTransmitter.Fresh (t : SirannonRTPTransmitter) : Prop where
  iPrevTiming : t.iPrevTiming = -1
  bPts : t.bPts = false
  timestamp : t.pSession.timestamp < 2^32

structure RTPReceiver.Fresh (r : RTPReceiver) : Prop where
  bFirst : r.bFirst = true
  iLastDts : r.iLastDts = -1
  iBaseDts : r.iBaseDts = 0

/-! ## Scaling there and back -/

section
variable {k : Kind} {x y : ℤ}

theorem timing_scaled {samplerate : ℤ} (hk : (Kind.audio samplerate).Legal) (h₀ : 0 ≤ x)
    (hx : x < 2^31) : (Kind.audio samplerate).timing x = (x*samplerate+90000/2)/90000 := by
  rcases hk with ⟨_, hmax⟩
  rw [Kind.timing, av_rescale_q, timebase, one_mul, one_mul]
  exact rescale_nearest h₀ (by rw [INT_MAX]; omega) hmax (by decide)

theorem restored_scaled {samplerate : ℤ} (hk : (Kind.audio samplerate).Legal) (h₀ : 0 ≤ x)
    (hx : x < 2^31) :
    (Kind.audio samplerate).restored x = (x*90000+samplerate/2)/samplerate := by
  rcases hk with ⟨_, hmax⟩
  rw [Kind.restored, av_rescale_q, timebase, one_mul, one_mul]
  exact rescale_nearest h₀ (by rw [INT_MAX]; omega) (by decide) hmax

theorem timing_nonneg (hk : k.Legal) (h₀ : 0 ≤ x) (hx : x < 2^31) : 0 ≤ k.timing x := by
  cases k with
  | video => exact h₀
  | audio samplerate =>
    rw [timing_scaled hk h₀ hx]
    exact nearest_nonneg h₀ hk.1.le (by decide)

theorem timing_mono (hk : k.Legal) (h₀ : 0 ≤ x) (hxy : x ≤ y) (hy : y < 2^31) :
    k.timing x ≤ k.timing y := by
  cases k with
  | video => exact hxy
  | audio samplerate =>
    rw [timing_scaled hk h₀ (by omega), timing_scaled hk (by omega) hy]
    exact nearest_mono hk.1.le (by decide) hxy

theorem restored_nonneg (hk : k.Legal) (h₀ : 0 ≤ x) (hx : x < 2^31) : 0 ≤ k.restored x := by
  cases k with
  | video => exact h₀
  | audio samplerate =>
    rw [restored_scaled hk h₀ hx]
    exact nearest_nonneg h₀ (by decide) hk.1

theorem restored_zero (hk : k.Legal) : k.restored 0 = 0 := by
  cases k with
  | video => rfl
  | audio samplerate =>
    rw [restored_scaled hk (by decide) (by decide), zero_mul, zero_add]
    exact Int.ediv_eq_zero_of_lt (by have := hk.1; omega) (by have := hk.1; omega)

/-- Scaled there and back a distance is off by a tick of the coarser scale and one of the
rounding. -/
theorem restored_close (hk : k.Legal) (h₀ : 0 ≤ x) (hxy : x ≤ y) (hy : y < 2^31)
    (hfits : k.timing y < 2^31) : k.Close (y-x) (k.restored (k.timing y-k.timing x)) := by
  have hmono := timing_mono hk h₀ hxy hy
  have hx := timing_nonneg hk h₀ (by omega : x < 2^31)
  cases k with
  | video => rfl
  | audio samplerate =>
    have hpos := hk.1
    rw [timing_scaled hk (by omega) hy] at hfits
    rw [timing_scaled hk h₀ (by omega), timing_scaled hk (by omega) hy] at hmono
    rw [timing_scaled hk h₀ (by omega)] at hx
    rw [Kind.Close, timing_scaled hk h₀ (by omega), timing_scaled hk (by omega) hy,
      restored_scaled hk (by omega) (by omega)]
    have hx₁ := nearest_low (a := x) (b := samplerate) (c := 90000) (by decide)
    have hx₂ := nearest_high (a := x) (b := samplerate) (c := 90000) (by decide)
    have hy₁ := nearest_low (a := y) (b := samplerate) (c := 90000) (by decide)
    have hy₂ := nearest_high (a := y) (b := samplerate) (c := 90000) (by decide)
    generalize (x*samplerate+90000/2)/90000 = m at *
    generalize (y*samplerate+90000/2)/90000 = n at *
    have hr₁ := nearest_low (a := n-m) (b := 90000) hpos
    have hr₂ := nearest_high (a := n-m) (b := 90000) hpos
    generalize ((n-m)*90000+samplerate/2)/samplerate = z at *
    have htick : (90000:ℤ)/2 = 45000 := by norm_num
    rw [htick] at hx₁ hx₂ hy₁ hy₂
    have hhalf : samplerate/2 ≤ samplerate := by omega
    have hadd : (90000+samplerate)/samplerate = 90000/samplerate+1 := by
      rw [Int.add_ediv_of_dvd_right (dvd_refl samplerate), Int.ediv_self hpos.ne']
    rw [← hadd, abs_le]
    constructor
    · have hle : y-x-z ≤ (90000+samplerate)/samplerate := by
        apply Int.le_ediv_of_mul_le hpos
        linarith
      omega
    · apply Int.le_ediv_of_mul_le hpos
      linarith

end

/-! ## What is sent -/

section
variable {k : Kind} {t : SirannonRTPTransmitter} {p : MediaPacket} {ps : List MediaPacket}

theorem uint32_moved (x y : ℤ) : uint32 ((uint32 x : ℕ)+y) = uint32 (x+y) := by
  rw [uint32_emod, uint32, uint32]
  omega

theorem converted_timing (hp : k.Carries p) (h₀ : 0 ≤ k.timing p.dts)
    (hfits : k.timing p.dts < 2^31) : (convertTimestamps p).1 = k.timing p.dts := by
  cases k with
  | video =>
    have hcontent : p.content = .video := hp
    rw [convertTimestamps, hcontent]
    cases p.desc <;> rfl
  | audio samplerate =>
    rcases hp with ⟨hcontent, hmux, desc, hdesc, hrate⟩
    simp only [convertTimestamps, hdesc]
    rw [if_pos ⟨hcontent, hmux⟩, hrate]
    exact int32_of_range _ (by rw [Kind.timing] at h₀; omega) hfits

theorem receive_timing (hpts : t.bPts = false) :
    (t.receive p).2.2.iPrevTiming = (convertTimestamps p).1 ∧
      (t.receive p).2.2.bPts = false := by
  simp [SirannonRTPTransmitter.receive, RTPSession.SendPacket, hpts]

theorem receive_session (hts : t.pSession.timestamp < 2^32) :
    (t.receive p).2.2.pSession.timestamp = (t.receive p).1.timestamp := by
  simp only [SirannonRTPTransmitter.receive, RTPSession.SendPacket, RTPSession.IncrementTimestamp]
  split_ifs <;> simp <;> omega

theorem receive_first (hprev : t.iPrevTiming < 0) :
    (t.receive p).1.timestamp = t.pSession.timestamp := by
  simp only [SirannonRTPTransmitter.receive, RTPSession.SendPacket, not_le.mpr hprev, false_and,
    if_false]
  split_ifs <;> rfl

theorem receive_advances (hpts : t.bPts = false) (hprev : 0 ≤ t.iPrevTiming)
    (hts : t.pSession.timestamp < 2^32) :
    (t.receive p).1.timestamp =
      uint32 (t.pSession.timestamp+((convertTimestamps p).1-t.iPrevTiming)) := by
  have hstep := uint32_emod ((convertTimestamps p).1-t.iPrevTiming)
  have hsum := uint32_emod (t.pSession.timestamp+((convertTimestamps p).1-t.iPrevTiming))
  simp only [SirannonRTPTransmitter.receive, RTPSession.SendPacket,
    RTPSession.IncrementTimestamp, hpts]
  split_ifs <;> simp_all <;> omega

/-- The time stamps are those of the start, moved by the distances of the scaled times. -/
theorem transmit_timestamps (hpts : t.bPts = false) (hprev : 0 ≤ t.iPrevTiming)
    (hts : t.pSession.timestamp < 2^32)
    (hps : ∀ p ∈ ps, (convertTimestamps p).1 = k.timing p.dts ∧ 0 ≤ k.timing p.dts) :
    (transmit t ps).map RTPPacket.timestamp =
      ps.map fun p => uint32 (t.pSession.timestamp+(k.timing p.dts-t.iPrevTiming)) := by
  induction ps generalizing t with
  | nil => rfl
  | cons p ps ih =>
    rcases hps p (by simp) with ⟨hp, hp₀⟩
    rcases receive_timing (p := p) hpts with ⟨hnext, hpts'⟩
    have hsession := receive_session (p := p) hts
    have htime := receive_advances (p := p) hpts hprev hts
    have hbase := uint32_emod (t.pSession.timestamp+(k.timing p.dts-t.iPrevTiming))
    rw [hp] at hnext htime
    have hrest := ih hpts' (by omega) (by rw [hsession, htime]; omega)
      (fun q hq => hps q (by simp [hq]))
    rw [transmit, List.map_cons, List.map_cons, hrest, htime]
    congr 1
    apply List.map_congr_left
    intro q hq
    rw [hsession, htime, hnext, uint32_moved]
    congr 1
    omega

theorem sent_timestamps (ht : t.Fresh)
    (hps : ∀ q ∈ p::ps, (convertTimestamps q).1 = k.timing q.dts ∧ 0 ≤ k.timing q.dts) :
    (transmit t (p::ps)).map RTPPacket.timestamp =
      (p::ps).map fun q =>
        uint32 (t.pSession.timestamp+(k.timing q.dts-k.timing p.dts)) := by
  rcases hps p (by simp) with ⟨hp, hp₀⟩
  rcases receive_timing (p := p) ht.bPts with ⟨hnext, hpts⟩
  have hts := ht.timestamp
  have hprev := ht.iPrevTiming
  have hsession := receive_session (p := p) hts
  have htime := receive_first (p := p) (by omega : t.iPrevTiming < 0)
  rw [hp] at hnext
  have hrest := transmit_timestamps hpts (by omega) (by omega)
    (fun q hq => hps q (List.mem_cons_of_mem p hq))
  rw [transmit, List.map_cons, List.map_cons, hrest, htime, hsession, htime, hnext, sub_self,
    add_zero, uint32_of_range _ hts]

end

/-! ## What is received -/

section
variable {k : Kind} {r : RTPReceiver} {q : Received} {qs : List Received}

/-- The time a packet gets, counted from the time stamp `iFirst`. -/
def Kind.arrival (k : Kind) (iFirst : ℤ) (iTimestamp : ℕ) : ℤ :=
  int32 (k.restored (int32 (iTimestamp-iFirst)))

theorem translated (hk : k.Legal) (hd : k.Describes r.pDesc) :
    ∃ pckt, translate r (deduce r q) = .ok pckt ∧
      int32 pckt.dts = k.arrival r.iFirstDts q.timestamp ∧
      pckt.bytes = [] ∧ pckt.iFront = iBufferSpace ∧
      pckt.max_size = q.payload.length+2*iBufferSpace := by
  cases k with
  | video =>
    have hvideo : (deduce r q).content = .video := hd
    exists deduce r q
    constructor
    · rw [translate, hvideo]
      rfl
    · exact ⟨rfl, rfl, rfl, rfl⟩
  | audio samplerate =>
    have haudio : (deduce r q).content = .audio := hd.1
    have hmux : (deduce r q).mux = .RTP := rfl
    have hrate : r.pDesc.samplerate ≠ 0 := by
      rw [hd.2]
      exact hk.1.ne'
    rw [translate, haudio, hmux, if_pos ⟨rfl, by decide⟩, if_neg hrate]
    refine ⟨_, rfl, ?_, rfl, rfl, rfl⟩
    rw [Kind.arrival, int32_int32, Kind.restored, hd.2]
    rfl

theorem startAt_keeps : (r.startAt q).pDesc = r.pDesc ∧ (r.startAt q).iBaseDts = r.iBaseDts ∧
    (r.startAt q).iLastDts = r.iLastDts ∧ (r.startAt q).bFirst = false := by
  rw [RTPReceiver.startAt]
  by_cases hfirst : r.bFirst
  · rw [if_pos hfirst]
    simp
  · rw [if_neg hfirst]
    simpa using hfirst

theorem detect_run (hbase : r.iBaseDts = 0) (pckt : MediaPacket) :
    (r.detect pckt).1.dts = int32 pckt.dts ∧
      (r.detect pckt).1.framestart = decide (some r.iLastDts ≠ some (int32 pckt.dts)) ∧
      (r.detect pckt).2.iLastDts = int32 pckt.dts ∧
      (r.detect pckt).1.bytes = pckt.bytes ∧ (r.detect pckt).1.iFront = pckt.iFront ∧
      (r.detect pckt).1.max_size = pckt.max_size := by
  rw [RTPReceiver.detect, hbase, add_zero]
  dsimp only
  by_cases hsame : int32 pckt.dts = r.iLastDts
  · rw [if_neg (not_not.mpr hsame), hsame]
    simp
  · rw [if_pos hsame]
    simp [Ne.symm hsame]

theorem detect_keeps (pckt : MediaPacket) : (r.detect pckt).2.pDesc = r.pDesc ∧
    (r.detect pckt).2.iBaseDts = r.iBaseDts ∧ (r.detect pckt).2.iFirstDts = r.iFirstDts ∧
    (r.detect pckt).2.bFirst = r.bFirst := by
  rw [RTPReceiver.detect]
  dsimp only
  split_ifs <;> simp

/-- A packet gets the time of its own time stamp, and starts a frame when this is not the
time of the packet in front of it. -/
theorem receive_run (hk : k.Legal) (hd : k.Describes r.pDesc) (hbase : r.iBaseDts = 0) :
    ∃ pckt r', r.receive q = .ok (pckt, r') ∧
      pckt.dts = k.arrival (r.startAt q).iFirstDts q.timestamp ∧
      pckt.framestart =
        decide (some r.iLastDts ≠ some (k.arrival (r.startAt q).iFirstDts q.timestamp)) ∧
      r'.iLastDts = k.arrival (r.startAt q).iFirstDts q.timestamp ∧
      r'.pDesc = r.pDesc ∧ r'.iBaseDts = 0 ∧ r'.iFirstDts = (r.startAt q).iFirstDts ∧
      r'.bFirst = false := by
  rcases startAt_keeps (r := r) (q := q) with ⟨hdesc, hstart, hlast, hbegun⟩
  rcases translated (r := r.startAt q) (q := q) hk (by rw [hdesc]; exact hd)
    with ⟨pckt, hpckt, hdts, hbytes, hfront, hmax⟩
  rcases detect_run (by rw [hstart]; exact hbase) pckt
    with ⟨hdts', hopen, hlast', hbytes', hfront', hmax'⟩
  rcases detect_keeps (r := r.startAt q) pckt with ⟨hdesc', hbase', hfirst', hbegun'⟩
  have hpush := @push_back_ok (((r.startAt q).detect pckt).2.number q
    ((r.startAt q).detect pckt).1) q.payload (by
    show ((r.startAt q).detect pckt).1.iFront+((r.startAt q).detect pckt).1.bytes.length+
      q.payload.length < ((r.startAt q).detect pckt).1.max_size
    rw [hbytes', hfront', hmax', hbytes, hfront, hmax, iBufferSpace, List.length_nil]
    omega)
  simp only [RTPReceiver.receive, hpckt, hpush, bind, Except.bind, pure, Except.pure]
  refine ⟨_, _, rfl, ?_, ?_, ?_, ?_, ?_, hfirst', ?_⟩
  · rw [← hdts]
    exact hdts'
  · rw [← hlast, ← hdts]
    exact hopen
  · rw [hlast', hdts]
  · rw [hdesc', hdesc]
  · rw [hbase', hstart, hbase]
  · rw [hbegun', hbegun]

theorem process_run (qs : List Received) (hk : k.Legal) (hd : k.Describes r.pDesc) (hbase : r.iBaseDts = 0)
    (hbegun : r.bFirst = false) :
    ∃ vRouted r', process r qs = .ok (vRouted, r') ∧
      vRouted.map (fun pckt => pckt.dts) =
        qs.map (fun q => k.arrival r.iFirstDts q.timestamp) ∧
      vRouted.map (fun pckt => pckt.framestart) =
        opens (some r.iLastDts) (qs.map fun q => k.arrival r.iFirstDts q.timestamp) := by
  induction qs generalizing r with
  | nil => exact ⟨[], r, rfl, rfl, rfl⟩
  | cons q qs ih =>
    have hstart : r.startAt q = r := by rw [RTPReceiver.startAt, hbegun, if_neg (by decide)]
    rcases receive_run (q := q) hk hd hbase
      with ⟨pckt, r', hrun, hdts, hopen, hlast, hdesc, hbase', hfirst, hbegun'⟩
    rw [hstart] at hdts hopen hlast hfirst
    rcases ih (by rw [hdesc]; exact hd) hbase' hbegun' with ⟨vRouted, r'', hrest, htimes, hframes⟩
    rw [hfirst] at htimes hframes
    rw [hlast] at hframes
    exists pckt::vRouted, r''
    constructor
    · simp only [process, hrun, hrest, bind, Except.bind, pure, Except.pure]
    constructor
    · rw [List.map_cons, List.map_cons, hdts, htimes]
    · rw [List.map_cons, List.map_cons, opens, hopen, hframes]

/-- From the start on the times are counted from the first time stamp. -/
theorem process_first (hk : k.Legal) (hr : r.Fresh) (hd : k.Describes r.pDesc) :
    ∃ vRouted r', process r (q::qs) = .ok (vRouted, r') ∧
      vRouted.map (fun pckt => pckt.dts) =
        (q::qs).map (fun q' => k.arrival (int32 q.timestamp) q'.timestamp) ∧
      vRouted.map (fun pckt => pckt.framestart) = opens (some (-1))
        ((q::qs).map fun q' => k.arrival (int32 q.timestamp) q'.timestamp) := by
  have hstart : (r.startAt q).iFirstDts = int32 q.timestamp := by
    rw [RTPReceiver.startAt, if_pos hr.bFirst]
  rcases receive_run (q := q) hk hd hr.iBaseDts
    with ⟨pckt, r', hrun, hdts, hopen, hlast, hdesc, hbase, hfirst, hbegun⟩
  rw [hstart] at hdts hopen hlast hfirst
  rw [hr.iLastDts] at hopen
  rcases process_run qs hk (by rw [hdesc]; exact hd) hbase hbegun
    with ⟨vRouted, r'', hrest, htimes, hframes⟩
  rw [hfirst] at htimes hframes
  rw [hlast] at hframes
  exists pckt::vRouted, r''
  constructor
  · simp only [process, hrun, hrest, bind, Except.bind, pure, Except.pure]
  constructor
  · rw [List.map_cons, List.map_cons, hdts, htimes]
  · rw [List.map_cons, List.map_cons, opens, hopen, hframes]

theorem process_append (us vs : List Received) : process r (us ++ vs) = (do
    let (vRouted, r) ← process r us
    let (vRest, r) ← process r vs
    return (vRouted ++ vRest, r)) := by
  induction us generalizing r with
  | nil =>
    simp only [List.nil_append, process, bind, Except.bind, pure, Except.pure]
    cases process r vs <;> rfl
  | cons u us ih =>
    simp only [List.cons_append, process, ih, bind, Except.bind, pure, Except.pure]
    cases r.receive u with
    | error e => rfl
    | ok a =>
      dsimp only
      cases process a.2 us with
      | error e => rfl
      | ok b =>
        dsimp only
        cases process b.2 vs <;> rfl

/-- How the packets fall on the polls makes no difference. -/
theorem processAll_flatten (polls : List (List Received)) :
    processAll r polls = process r polls.flatten := by
  induction polls generalizing r with
  | nil => rfl
  | cons qs polls ih =>
    rw [List.flatten_cons, process_append, processAll]
    simp only [ih]

end

/-! ## The times as a whole -/

section
variable {k : Kind} {ps : List MediaPacket} {p : MediaPacket}

/-- A distance below 31 bits survives any start of the time stamps. -/
theorem distance_kept (iStart x : ℤ) (h₀ : 0 ≤ x) (hx : x < 2^31) :
    int32 ((uint32 (iStart+x) : ℕ)-int32 (uint32 iStart : ℕ)) = x := by
  have hfirst := int32_emod ((uint32 iStart : ℕ) : ℤ)
  rw [uint32_emod] at hfirst
  rw [uint32_emod, uint32_emod]
  have hcongr : int32 ((iStart+x)%2^32-int32 (iStart%2^32)) = int32 x := by
    apply int32_congr
    omega
  rw [hcongr]
  exact int32_of_range x (by omega) hx

theorem timestamp_differs (iStart x y : ℤ) (hx₀ : 0 ≤ x) (hx : x < 2^31) (hy₀ : 0 ≤ y)
    (hy : y < 2^31) : uint32 (iStart+x) = uint32 (iStart+y) ↔ x = y := by
  constructor
  · intro h
    have hx' := distance_kept iStart x hx₀ hx
    rw [h, distance_kept iStart y hy₀ hy] at hx'
    exact hx'.symm
  · intro h
    rw [h]

theorem forall_map_iff {α β γ : Type} {R : α → γ → Prop} {f : α → γ} {g : β → γ} {xs : List α}
    {ys : List β} (h : ys.map g = xs.map f) :
    List.Forall₂ (fun x y => R x (g y)) xs ys ↔ ∀ x ∈ xs, R x (f x) := by
  induction xs generalizing ys with
  | nil =>
    rw [List.map_nil, List.map_eq_nil_iff] at h
    simp [h]
  | cons x xs ih =>
    cases ys with
    | nil => simp at h
    | cons y ys =>
      rw [List.map_cons, List.map_cons] at h
      rcases List.cons.inj h with ⟨hy, hys⟩
      rw [List.forall₂_cons, ih hys, hy]
      simp

theorem opens_iff {α β γ : Type} [DecidableEq β] [DecidableEq γ] {f : α → β} {g : α → γ}
    {x : α} {xs : List α} :
    opens (some (f x)) (xs.map f) = opens (some (g x)) (xs.map g) ↔
      (x::xs).IsChain fun x y => f x = f y ↔ g x = g y := by
  induction xs generalizing x with
  | nil => simp [opens]
  | cons y ys ih =>
    rw [List.isChain_cons_cons, ← ih, List.map_cons, List.map_cons, opens, opens, List.cons.injEq]
    have hhead : decide (some (f x) ≠ some (f y)) = decide (some (g x) ≠ some (g y)) ↔
        (f x = f y ↔ g x = g y) := by
      rw [decide_eq_decide, ne_eq, ne_eq, not_iff_not, Option.some.injEq, Option.some.injEq]
    rw [hhead]

/-- A scaled time beyond 31 bits arrives as a negative one. -/
theorem close_iff {x y : ℤ} (hk : k.Legal) (h₀ : 0 ≤ x) (hxy : x ≤ y) (hy : y < 2^31)
    (hfits : k.timing y < 2^31) :
    k.Close (y-x) (int32 (k.restored (k.timing y-k.timing x))) ↔
      k.restored (k.timing y-k.timing x) < 2^31 := by
  have hclose := restored_close hk h₀ hxy hy hfits
  have hmono := timing_mono hk h₀ hxy hy
  have hx := timing_nonneg hk h₀ (by omega : x < 2^31)
  have hnonneg := restored_nonneg hk (by omega : 0 ≤ k.timing y-k.timing x) (by omega)
  generalize k.restored (k.timing y-k.timing x) = z at *
  constructor
  · intro h
    cases k with
    | video =>
      have hz : z = y-x := hclose
      omega
    | audio samplerate =>
      have hpos := hk.1
      have hbound : 90000/samplerate ≤ 90000 := Int.ediv_le_self samplerate (by decide)
      rw [Kind.Close, abs_le] at h hclose
      by_contra hbig
      have hwrap : int32 z = z-2^32 := by
        have hcongr : int32 z = int32 (z-2^32) := int32_congr (by omega)
        rw [hcongr]
        exact int32_of_range _ (by omega) (by omega)
      rw [hwrap] at h
      omega
  · intro h
    rw [int32_of_range z (by omega) h]
    exact hclose

/-- The packets of a stream in its order, each with a time of 31 bits. -/
structure Kind.Ordered (k : Kind) (ps : List MediaPacket) : Prop where
  carries : ∀ p ∈ ps, k.Carries p
  range : ∀ p ∈ ps, 0 ≤ p.dts ∧ p.dts < 2^31
  sorted : (ps.map fun p => p.dts).Pairwise (· ≤ ·)

theorem Kind.Ordered.first_le (h : k.Ordered (p::ps)) {q : MediaPacket} (hq : q ∈ p::ps) :
    p.dts ≤ q.dts := by
  rcases List.mem_cons.mp hq with heq | hmem
  · rw [heq]
  · have hsorted := h.sorted
    rw [List.map_cons, List.pairwise_cons] at hsorted
    exact hsorted.1 q.dts (List.mem_map_of_mem hmem)

theorem elapsed_range (hk : k.Legal) (h : k.Ordered (p::ps))
    (hfits : ∀ q ∈ p::ps, k.timing q.dts < 2^31) {q : MediaPacket} (hq : q ∈ p::ps) :
    0 ≤ k.elapsed (p::ps) q ∧ k.elapsed (p::ps) q < 2^31 := by
  have hp := h.range p (by simp)
  have hpos := timing_nonneg hk hp.1 hp.2
  have hmono := timing_mono hk hp.1 (h.first_le hq) (h.range q hq).2
  have hmax := hfits q hq
  have hfirst : k.elapsed (p::ps) q = k.timing q.dts-k.timing p.dts := rfl
  omega

/-- What the receiver makes of the stream, packet by packet. -/
theorem stream_run {t : SirannonRTPTransmitter} {r : RTPReceiver} (hk : k.Legal) (ht : t.Fresh)
    (hr : r.Fresh) (hd : k.Describes r.pDesc) (h : k.Ordered (p::ps))
    (hfits : ∀ q ∈ p::ps, k.timing q.dts < 2^31) {qs : List Received}
    (hqs : Delivered (transmit t (p::ps)) qs) :
    (transmit t (p::ps)).map RTPPacket.timestamp =
      (p::ps).map (fun q => uint32 (t.pSession.timestamp+k.elapsed (p::ps) q)) ∧
    ∃ vRouted r', process r qs = .ok (vRouted, r') ∧
      vRouted.map (fun q => q.dts) =
        (p::ps).map (fun q => int32 (k.restored (k.elapsed (p::ps) q))) ∧
      vRouted.map (fun q => q.framestart) =
        opens (some (-1)) ((p::ps).map fun q => int32 (k.restored (k.elapsed (p::ps) q))) := by
  have hsent : (transmit t (p::ps)).map RTPPacket.timestamp =
      (p::ps).map fun q => uint32 (t.pSession.timestamp+k.elapsed (p::ps) q) := by
    apply sent_timestamps ht
    intro q hq
    have hrange := h.range q hq
    have hpos := timing_nonneg hk hrange.1 hrange.2
    exact ⟨converted_timing (h.carries q hq) hpos (hfits q hq), hpos⟩
  constructor
  · exact hsent
  have htimes : qs.map (fun q => q.timestamp) =
      (p::ps).map fun q => uint32 (t.pSession.timestamp+k.elapsed (p::ps) q) := by
    rw [← hsent, ← hqs, List.map_map]
    rfl
  cases qs with
  | nil => simp at htimes
  | cons q qs =>
    have harrive : (q::qs).map (fun q' => k.arrival (int32 q.timestamp) q'.timestamp) =
        (p::ps).map fun q' => int32 (k.restored (k.elapsed (p::ps) q')) := by
      have hzero : k.elapsed (p::ps) p = 0 := sub_self (k.timing p.dts)
      have hstart : q.timestamp = uint32 t.pSession.timestamp := by
        rw [List.map_cons, List.map_cons, hzero, add_zero] at htimes
        exact (List.cons.inj htimes).1
      have hmap : (q::qs).map (fun q' => k.arrival (int32 q.timestamp) q'.timestamp) =
          ((q::qs).map fun q' => q'.timestamp).map (k.arrival (int32 q.timestamp)) := by
        rw [List.map_map]
        rfl
      rw [hmap, htimes, List.map_map]
      apply List.map_congr_left
      intro q' hq'
      have hrange := elapsed_range hk h hfits hq'
      rw [Function.comp_apply, Kind.arrival, hstart,
        distance_kept t.pSession.timestamp _ hrange.1 hrange.2]
    rcases process_first (q := q) hk hr hd with ⟨vRouted, r', hrun, hdts, hframes⟩
    rw [harrive] at hdts hframes
    exact ⟨vRouted, r', hrun, hdts, hframes⟩

theorem times_iff {vRouted : List MediaPacket} (hk : k.Legal) (h : k.Ordered (p::ps))
    (hfits : ∀ q ∈ p::ps, k.timing q.dts < 2^31)
    (hdts : vRouted.map (fun q => q.dts) =
      (p::ps).map fun q => int32 (k.restored (k.elapsed (p::ps) q))) :
    List.Forall₂ (fun p' q => k.Close (p'.dts-firstDts (p::ps)) (q.dts-firstDts vRouted))
        (p::ps) vRouted ↔
      ∀ q ∈ p::ps, k.restored (k.elapsed (p::ps) q) < 2^31 := by
  have hfirst : firstDts vRouted = 0 := by
    have hzero : k.elapsed (p::ps) p = 0 := sub_self (k.timing p.dts)
    cases vRouted with
    | nil => simp at hdts
    | cons v vs =>
      rw [List.map_cons, List.map_cons, hzero, restored_zero hk] at hdts
      have hv : v.dts = int32 0 := (List.cons.inj hdts).1
      rw [firstDts, List.head?_cons, Option.map_some, Option.getD_some, hv]
      exact int32_of_range 0 (by decide) (by decide)
  simp only [hfirst, sub_zero]
  rw [forall_map_iff (R := fun p' z => k.Close (p'.dts-firstDts (p::ps)) z) hdts]
  apply forall₂_congr
  intro q hq
  have hp := h.range p (by simp)
  exact close_iff hk hp.1 (h.first_le hq) (h.range q hq).2 (hfits q hq)

theorem frames_iff {iStart : ℤ} (hk : k.Legal) (h : k.Ordered (p::ps))
    (hfits : ∀ q ∈ p::ps, k.timing q.dts < 2^31)
    (hrestored : ∀ q ∈ p::ps, k.restored (k.elapsed (p::ps) q) < 2^31) :
    opens (some (-1)) ((p::ps).map fun q => int32 (k.restored (k.elapsed (p::ps) q))) =
        opens none ((p::ps).map fun q => uint32 (iStart+k.elapsed (p::ps) q)) ↔
      (p::ps).IsChain fun q q' => k.timing q.dts ≠ k.timing q'.dts →
        k.restored (k.elapsed (p::ps) q) ≠ k.restored (k.elapsed (p::ps) q') := by
  have hvalue : ∀ q ∈ p::ps, int32 (k.restored (k.elapsed (p::ps) q)) =
      k.restored (k.elapsed (p::ps) q) := by
    intro q hq
    have hrange := elapsed_range hk h hfits hq
    have hpos := restored_nonneg hk hrange.1 hrange.2
    exact int32_of_range _ (by omega) (hrestored q hq)
  have hopen : int32 (k.restored (k.elapsed (p::ps) p)) ≠ -1 := by
    have hrange := elapsed_range hk h hfits (List.mem_cons_self (a := p))
    have hpos := restored_nonneg hk hrange.1 hrange.2
    have hp := hvalue p (List.mem_cons_self (a := p))
    omega
  rw [List.map_cons, List.map_cons, opens, opens]
  have hhead : decide (some (-1) ≠ some (int32 (k.restored (k.elapsed (p::ps) p)))) = true := by
    simpa using hopen.symm
  rw [hhead, decide_eq_true (by simp : none ≠ some (uint32 (iStart+k.elapsed (p::ps) p))),
    List.cons.injEq]
  simp only [true_and]
  rw [opens_iff (f := fun q => int32 (k.restored (k.elapsed (p::ps) q)))
    (g := fun q => uint32 (iStart+k.elapsed (p::ps) q)) (x := p)]
  apply List.IsChain.iff_of_mem_imp
  intro q q' hq hq'
  have hrange := elapsed_range hk h hfits hq
  have hrange' := elapsed_range hk h hfits hq'
  rw [hvalue q hq, hvalue q' hq',
    timestamp_differs iStart _ _ hrange.1 hrange.2 hrange'.1 hrange'.2]
  have helapsed : k.elapsed (p::ps) q = k.elapsed (p::ps) q' ↔
      k.timing q.dts = k.timing q'.dts := by
    rw [Kind.elapsed, Kind.elapsed]
    omega
  rw [ne_eq, ne_eq, ← helapsed, not_imp_not]
  constructor
  · intro hiff
    exact hiff.mp
  · intro himp
    constructor
    · exact himp
    · intro heq
      rw [heq]

end

/-- Over any number of polls. -/
theorem rtp_timing_iff (k : Kind) (hk : k.Legal) (t : SirannonRTPTransmitter) (ht : t.Fresh)
    (r : RTPReceiver) (hr : r.Fresh) (hd : k.Describes r.pDesc) (ps : List MediaPacket)
    (h : k.Ordered ps) (polls : List (List Received))
    (hpolls : Delivered (transmit t ps) polls.flatten)
    (hfits : ∀ p ∈ ps, k.timing p.dts < 2^31) :
    (∃ vRouted r', processAll r polls = .ok (vRouted, r') ∧
      k.Restores ps (transmit t ps) vRouted) ↔ k.Separates ps := by
  rw [processAll_flatten]
  generalize polls.flatten = qs at *
  cases ps with
  | nil =>
    have hempty : qs = [] := List.map_eq_nil_iff.mp hpolls
    rw [hempty]
    constructor
    · intro _
      exact ⟨by simp, List.isChain_nil⟩
    · intro _
      exact ⟨[], r, rfl, List.Forall₂.nil, rfl⟩
  | cons p ps =>
    rcases stream_run hk ht hr hd h hfits hpolls with ⟨hsent, vRouted, r', hrun, hdts, hframes⟩
    have htimes := times_iff hk h hfits hdts
    constructor
    · rintro ⟨v, r'', hv, hrestores⟩
      have heq : (vRouted, r') = (v, r'') := Except.ok.inj (hrun.symm.trans hv)
      rw [← (Prod.mk.inj heq).1] at hrestores
      have hfit := htimes.mp hrestores.times
      have hopened := hrestores.frames
      rw [hframes, hsent, frames_iff hk h hfits hfit] at hopened
      exact ⟨hfit, hopened⟩
    · intro hsep
      exists vRouted, r'
      constructor
      · exact hrun
      constructor
      · exact htimes.mpr hsep.fits
      · rw [hframes, hsent, frames_iff hk h hfits hsep.fits]
        exact hsep.distinct

/-- Video is not scaled. -/
theorem video_separates {ps : List MediaPacket} (h : Kind.video.Ordered ps) :
    Kind.video.Separates ps := by
  have hfits : ∀ q ∈ ps, Kind.video.timing q.dts < 2^31 := fun q hq => (h.range q hq).2
  constructor
  · intro q hq
    cases ps with
    | nil => simp at hq
    | cons p ps => exact (elapsed_range (k := .video) trivial h hfits hq).2
  · apply List.Pairwise.isChain
    apply List.pairwise_of_forall
    intro q q' hdiffer hsame
    apply hdiffer
    have hdistance : q.dts-firstDts ps = q'.dts-firstDts ps := hsame
    show q.dts = q'.dts
    omega

/-- Up to the rate of the time base every scaled time fits and no two fall together. -/
theorem low_rate {samplerate : ℤ} {ps : List MediaPacket} (hk : (Kind.audio samplerate).Legal)
    (hrate : samplerate ≤ 90000) (h : (Kind.audio samplerate).Ordered ps) :
    (∀ p ∈ ps, (Kind.audio samplerate).timing p.dts < 2^31) ∧
      ps.IsChain fun p q => (Kind.audio samplerate).timing p.dts ≠
          (Kind.audio samplerate).timing q.dts →
        (Kind.audio samplerate).restored ((Kind.audio samplerate).elapsed ps p) ≠
          (Kind.audio samplerate).restored ((Kind.audio samplerate).elapsed ps q) := by
  have hfits : ∀ p ∈ ps, (Kind.audio samplerate).timing p.dts < 2^31 := by
    intro p hp
    have hrange := h.range p hp
    rw [timing_scaled hk hrange.1 hrange.2]
    have hle := nearest_le (c := 90000) hrange.1 hrate (by decide)
    omega
  constructor
  · exact hfits
  cases ps with
  | nil => exact List.isChain_nil
  | cons p ps =>
    apply List.Pairwise.isChain
    have hsorted := List.pairwise_map.mp h.sorted
    apply hsorted.imp_of_mem
    intro q q' hq hq' hle hdiffer
    have hrange := elapsed_range hk h hfits hq
    have hrange' := elapsed_range hk h hfits hq'
    have hmono := timing_mono hk (h.range q hq).1 hle (h.range q' hq').2
    have hless : (Kind.audio samplerate).elapsed (p::ps) q <
        (Kind.audio samplerate).elapsed (p::ps) q' := by
      rw [Kind.elapsed, Kind.elapsed]
      omega
    rw [restored_scaled hk hrange.1 hrange.2, restored_scaled hk hrange'.1 hrange'.2]
    exact (nearest_strict hrate hk.1 hless).ne

def exampleDesc (samplerate : ℤ) : MediaDescriptor :=
  ⟨.audio, .mp4a, 0, 0, 0, samplerate, 2, []⟩

def exampleStream (samplerate : ℤ) (vDts : List ℤ) : List MediaPacket :=
  vDts.map fun dts =>
    { MediaPacket.new .media .audio 0 with desc := some (exampleDesc samplerate), dts := dts }

def exampleTransmitter : SirannonRTPTransmitter := ⟨⟨2^32-8, 0⟩, -1, false, false, 0, 97⟩

def exampleReceiver (samplerate : ℤ) : RTPReceiver :=
  ⟨exampleDesc samplerate, 0, 0, 0, 100, 200, -1, -1, 0, 0, true, 0⟩

def exampleReceived (samplerate : ℤ) (vDts : List ℤ) : List Received :=
  (transmit exampleTransmitter (exampleStream samplerate vDts)).map fun p => ⟨p, p.seqnr⟩

theorem exampleStream_ordered :
    (Kind.audio 48000).Ordered (exampleStream 48000 [0, 1920, 3840]) where
  carries := by
    intro p hp
    simp only [exampleStream, List.map_cons, List.map_nil, List.mem_cons, List.not_mem_nil,
      or_false] at hp
    rcases hp with rfl | rfl | rfl <;> exact ⟨rfl, by decide, _, rfl, rfl⟩
  range := by decide
  sorted := by decide

/-- Three packets over two polls, across the wrap of the time stamps. -/
theorem rtp_timing_witness : ∃ vRouted r',
    processAll (exampleReceiver 48000)
        [(exampleReceived 48000 [0, 1920, 3840]).take 1,
          (exampleReceived 48000 [0, 1920, 3840]).drop 1] = .ok (vRouted, r') ∧
      (Kind.audio 48000).Restores (exampleStream 48000 [0, 1920, 3840])
        (transmit exampleTransmitter (exampleStream 48000 [0, 1920, 3840])) vRouted :=
  (rtp_timing_iff (.audio 48000) ⟨by decide, by decide⟩ exampleTransmitter
    ⟨rfl, rfl, by decide⟩ (exampleReceiver 48000) ⟨rfl, rfl, rfl⟩ ⟨rfl, rfl⟩
    (exampleStream 48000 [0, 1920, 3840]) exampleStream_ordered _
    (by rw [Delivered]; decide +kernel) (by decide +kernel)).mpr
    ⟨by decide +kernel, by decide +kernel⟩

theorem merged_times : ((processAll (exampleReceiver 96000)
    [exampleReceived 96000 [7, 14, 15]]).map fun a => a.1.map fun p => (p.dts, p.framestart)) =
      .ok [(0, true), (8, true), (8, false)] := by
  decide +kernel

/-- At 96 kHz two packets with different time stamps become one frame. -/
theorem rtp_frames_merge : ¬∃ vRouted r',
    processAll (exampleReceiver 96000) [exampleReceived 96000 [7, 14, 15]] = .ok (vRouted, r') ∧
      (Kind.audio 96000).Restores (exampleStream 96000 [7, 14, 15])
        (transmit exampleTransmitter (exampleStream 96000 [7, 14, 15])) vRouted := by
  rintro ⟨vRouted, r', hrun, hrestores⟩
  have hsent : opens none ((transmit exampleTransmitter
      (exampleStream 96000 [7, 14, 15])).map RTPPacket.timestamp) = [true, true, true] := by
    decide +kernel
  have hmerged := merged_times
  rw [hrun] at hmerged
  have hpairs : vRouted.map (fun p => (p.dts, p.framestart)) =
      [(0, true), (8, true), (8, false)] := Except.ok.inj hmerged
  have hframes := hrestores.frames
  have hstarts : vRouted.map (fun p => p.framestart) = [true, true, false] := by
    have hsnd := congrArg (List.map Prod.snd) hpairs
    rw [List.map_map] at hsnd
    exact hsnd
  rw [hsent, hstarts] at hframes
  exact absurd hframes (by decide)

end Sirannon.RTP
