import Sirannon.TSMultiplexing

/-!
# Invariants of a pass

What is kept by the parts of a step is kept by a whole pass: by the tick of the
tables, by each packet created, by the DTS moving on, by a packet taken away.
-/

set_option autoImplicit false

namespace Sirannon.TSMultiplexing
open Bits Media MachineInt Multiplexing

/-- The clock is written into packets of the local reference stream, and not into tables. -/
structure Clocked (s : TSMultiplexer) (iStream : ℤ) (iType : TSType) (bPCR : Bool) : Prop where
  stream : bPCR = true → iStream = s.iLocalRefStream
  kind : bPCR = true → iType = .PES ∨ iType = .PCR

structure Preserved (P : TSMultiplexer → Prop) : Prop where
  begun : ∀ s iStream pMux pPckt, P s → P (s.begun iStream pMux pPckt)
  created : ∀ s s' iStream iType bStart bPCR n, Clocked s iStream iType bPCR → P s →
    s.createTSPacket iStream iType bStart bPCR = .ok (n, s') → P s'
  advanced : ∀ s s' iStream n, P s → s.advanced iStream n = .ok s' → P s'
  popped : ∀ s iStream, P s → P (s.modified iStream popped)

theorem no_clock (s : TSMultiplexer) (iStream : ℤ) (iType : TSType) :
    Clocked s iStream iType false := ⟨fun h => (Bool.false_ne_true h).elim, fun h => (Bool.false_ne_true h).elim⟩

variable {P : TSMultiplexer → Prop} {s s' : TSMultiplexer} {iStream : ℤ}

/-- A packet that is created has a front of the queue behind it. -/
theorem created_cases {iType : TSType} {bStart bPCR : Bool} {n : ℕ}
    (h : s.createTSPacket iStream iType bStart bPCR = .ok (n, s')) :
    ∃ pMux pPckt pHeader pTSPckt body, s.front iStream = .ok (pMux, pPckt) ∧
      n = payloadSize s.SI iType pPckt bPCR
        (decide (iType = .PES ∧ bStart ∧ pPckt.key ∧ pPckt.content = .video)) ∧
      s.fillTSHeader (newPacket pMux pPckt) n (s.pid iType pMux) (s.cc iType pMux) bStart bPCR
        (decide (iType = .PES ∧ bStart ∧ pPckt.key ∧ pPckt.content = .video)) = .ok pHeader ∧
      s.body iType n pPckt = .ok body ∧ pHeader.push_back body = .ok pTSPckt ∧
      ¬(iType = .PES ∧ pTSPckt.size ≠ 188) ∧
      s' = (s.taken iType iStream n pPckt).appended
        { iType := iType
          pTSPckt := pTSPckt
          iPID := s.pid iType pMux
          bPCR := bPCR
          iBody := body.length
          iClockPID := s.SI.PCR.PID
          iCounted := s.SI.PMT.size
          codecs := frontCodecs s } := by
  rw [TSMultiplexer.createTSPacket] at h
  obtain ⟨⟨pMux, pPckt⟩, hfront, h⟩ := bind_ok.1 h
  obtain ⟨pHeader, hheader, h⟩ := bind_ok.1 h
  obtain ⟨body, hbody, h⟩ := bind_ok.1 h
  obtain ⟨pTSPckt, hpush, h⟩ := bind_ok.1 h
  by_cases hsize : iType = .PES ∧ pTSPckt.size ≠ 188
  · rw [if_pos hsize] at h
    cases h
  · rw [if_neg hsize] at h
    cases h
    exact ⟨pMux, pPckt, pHeader, pTSPckt, body, hfront, rfl, hheader, hbody, hpush, hsize, rfl⟩

/-! ## What a packet leaves alone -/

theorem begun_local (s : TSMultiplexer) (iStream : ℤ) (pMux : Muxx) (pPckt : MediaPacket) :
    (s.begun iStream pMux pPckt).iLocalRefStream = s.iLocalRefStream := rfl

theorem taken_local (s : TSMultiplexer) (iType : TSType) (iStream : ℤ) (n : ℕ) (pPckt : MediaPacket) :
    (s.taken iType iStream n pPckt).iLocalRefStream = s.iLocalRefStream := by
  cases iType with
  | SDT => rfl
  | PAT => rfl
  | PMT => rfl
  | PCR => rfl
  | FILL => rfl
  | PES => rfl

theorem created_local {iType : TSType} {bStart bPCR : Bool} {n : ℕ}
    (h : s.createTSPacket iStream iType bStart bPCR = .ok (n, s')) :
    s'.iLocalRefStream = s.iLocalRefStream := by
  obtain ⟨_, pPckt, _, _, _, _, _, _, _, _, _, rfl⟩ := created_cases h
  exact taken_local s iType iStream n pPckt

/-! ## Steps and passes -/

theorem createSDT_preserved (h : Preserved P) (hs : P s) (hrun : s.createSDT iStream = .ok s') :
    P s' ∧ s'.iLocalRefStream = s.iLocalRefStream := by
  rw [TSMultiplexer.createSDT] at hrun
  by_cases hdue : s.SI.SDT.count = 1
  · rw [if_pos hdue] at hrun
    obtain ⟨⟨n, t⟩, hcreate, rfl⟩ := map_ok.1 hrun
    exact ⟨h.created s t iStream .SDT true false n (no_clock s iStream .SDT) hs hcreate,
      created_local hcreate⟩
  · rw [if_neg hdue] at hrun
    cases hrun
    exact ⟨hs, rfl⟩

theorem createPAT_preserved (h : Preserved P) (hs : P s) (hrun : s.createPAT iStream = .ok s') :
    P s' ∧ s'.iLocalRefStream = s.iLocalRefStream := by
  rw [TSMultiplexer.createPAT] at hrun
  by_cases hdue : s.SI.PAT.count = 1
  · rw [if_pos hdue] at hrun
    obtain ⟨⟨n, t⟩, hcreate, hrun⟩ := bind_ok.1 hrun
    obtain ⟨⟨m, u⟩, hcreate', rfl⟩ := map_ok.1 hrun
    have ht := h.created s t iStream .PAT true false n (no_clock s iStream .PAT) hs hcreate
    exact ⟨h.created t u iStream .PMT true false m (no_clock t iStream .PMT) ht hcreate',
      (created_local hcreate').trans (created_local hcreate)⟩
  · rw [if_neg hdue] at hrun
    cases hrun
    exact ⟨hs, rfl⟩

theorem createMedia_preserved (h : Preserved P) (hs : P s) {pPckt : MediaPacket} {bStart bPCR : Bool}
    (hlocal : bPCR = true → iStream = s.iLocalRefStream)
    (hrun : s.createMedia iStream pPckt bStart bPCR = .ok s') : P s' := by
  rw [TSMultiplexer.createMedia] at hrun
  by_cases hahead : s.ahead pPckt = true
  · rw [if_pos hahead] at hrun
    cases bPCR with
    | true =>
      obtain ⟨⟨n, t⟩, hcreate, rfl⟩ := map_ok.1 hrun
      exact h.created s t iStream .PCR false true n ⟨hlocal, fun _ => .inr rfl⟩ hs hcreate
    | false =>
      obtain ⟨⟨n, t⟩, hcreate, rfl⟩ := map_ok.1 hrun
      exact h.created s t iStream .FILL false false n (no_clock s iStream .FILL) hs hcreate
  · rw [if_neg hahead] at hrun
    obtain ⟨⟨n, t⟩, hcreate, hadvance⟩ := bind_ok.1 hrun
    have ht := h.created s t iStream .PES bStart bPCR n ⟨hlocal, fun _ => .inl rfl⟩ hs hcreate
    exact h.advanced t s' iStream n ht hadvance

theorem step_preserved (h : Preserved P) (hs : P s) {b : Bool} (hrun : s.step iStream = .ok (b, s')) :
    P s' := by
  rw [TSMultiplexer.step] at hrun
  obtain ⟨⟨pMux, pPckt⟩, -, hrun⟩ := bind_ok.1 hrun
  obtain ⟨t, hsdt, hrun⟩ := bind_ok.1 hrun
  obtain ⟨u, hpat, hrun⟩ := bind_ok.1 hrun
  obtain ⟨v, hmedia, hrun⟩ := bind_ok.1 hrun
  obtain ⟨ht, htlocal⟩ := createSDT_preserved h (h.begun s iStream pMux pPckt hs) hsdt
  obtain ⟨hu, hulocal⟩ := createPAT_preserved h ht hpat
  have hlocal : u.iLocalRefStream = s.iLocalRefStream :=
    hulocal.trans (htlocal.trans (begun_local s iStream pMux pPckt))
  have hv : P v := by
    apply createMedia_preserved h hu _ hmedia
    intro hdue
    rw [hlocal]
    simp only [TSMultiplexer.duePCR, decide_eq_true_eq] at hdue
    exact hdue.1
  rw [TSMultiplexer.depleted] at hrun
  obtain ⟨front, -, hrun⟩ := bind_ok.1 hrun
  by_cases hempty : front.2.size = 0
  · rw [if_pos hempty] at hrun
    cases hrun
    exact h.popped v iStream hv
  · rw [if_neg hempty] at hrun
    cases hrun
    exact hv

theorem steps_preserved (h : Preserved P) {fuel : ℕ} (hs : P s)
    (hrun : TSMultiplexer.steps iStream fuel s = .ok s') : P s' := by
  induction fuel generalizing s with
  | zero => cases hrun
  | succ fuel ih =>
    rw [TSMultiplexer.steps] at hrun
    obtain ⟨⟨b, t⟩, hstep, hrun⟩ := bind_ok.1 hrun
    have ht := step_preserved h hs hstep
    by_cases hmore : b = true ∧ ¬s.bInterleave = true
    · rw [if_pos hmore] at hrun
      exact ih ht hrun
    · rw [if_neg hmore] at hrun
      cases hrun
      exact ht

theorem pass_preserved (h : Preserved P)
    (hcontrol : ∀ s r iStartDts, P s → s.control iStartDts = .ok r → P r.2) {fuel : ℕ}
    {iStartDts : ℤ} {r : ℤ × TSMultiplexer} (hs : P s)
    (hrun : TSMultiplexer.pass iStartDts fuel iStream s = .ok r) : P r.2 := by
  induction fuel generalizing s iStream with
  | zero => cases hrun
  | succ fuel ih =>
    rw [TSMultiplexer.pass] at hrun
    by_cases hend : iStream < 0
    · rw [if_pos hend] at hrun
      exact hcontrol s r iStartDts hs hrun
    · rw [if_neg hend] at hrun
      obtain ⟨front, -, hrun⟩ := bind_ok.1 hrun
      obtain ⟨bReached, -, hrun⟩ := bind_ok.1 hrun
      cases bReached with
      | true =>
        cases hrun
        exact hs
      | false =>
        obtain ⟨t, hsteps, hrun⟩ := bind_ok.1 hrun
        obtain ⟨i, -, hrun⟩ := bind_ok.1 hrun
        exact ih (steps_preserved h hs hsteps) hrun

/-- Sending changes what was sent and the aggregate in work. -/
structure Sends (s s' : TSMultiplexer) : Prop where
  mMux : s'.mMux = s.mMux
  SI : s'.SI = s.SI
  created : s'.created = s.created
  iRefStream : s'.iRefStream = s.iRefStream
  iSources : s'.iSources = s.iSources
  iMaxPID : s'.iMaxPID = s.iMaxPID
  rates : s'.iMuxRate = s.iMuxRate ∧ s'.iPCR = s.iPCR ∧ s'.oMuxRate = s.oMuxRate

theorem sends_refl (s : TSMultiplexer) : Sends s s := ⟨rfl, rfl, rfl, rfl, rfl, rfl, rfl, rfl, rfl⟩

theorem sends_trans {t : TSMultiplexer} (h : Sends s t) (h' : Sends t s') : Sends s s' where
  mMux := h'.mMux.trans h.mMux
  SI := h'.SI.trans h.SI
  created := h'.created.trans h.created
  iRefStream := h'.iRefStream.trans h.iRefStream
  iSources := h'.iSources.trans h.iSources
  iMaxPID := h'.iMaxPID.trans h.iMaxPID
  rates := ⟨h'.rates.1.trans h.rates.1, h'.rates.2.1.trans h.rates.2.1,
    h'.rates.2.2.trans h.rates.2.2⟩

theorem muxAggregate_sends (s : TSMultiplexer) : Sends s s.muxAggregate := by
  rw [TSMultiplexer.muxAggregate]
  cases s.pTSPckt with
  | none => exact sends_refl s
  | some pTSPckt => exact ⟨rfl, rfl, rfl, rfl, rfl, rfl, rfl, rfl, rfl⟩

theorem mux_sends (s : TSMultiplexer) (pckt : MediaPacket) : Sends s (s.mux pckt) :=
  ⟨rfl, rfl, rfl, rfl, rfl, rfl, rfl, rfl, rfl⟩

theorem aggregated_sends {pPckt : MediaPacket} (h : s.aggregated pPckt = .ok s') : Sends s s' := by
  rw [TSMultiplexer.aggregated] at h
  obtain ⟨pTSPckt, -, h⟩ := bind_ok.1 h
  have hset : Sends s { s with pTSPckt := some pTSPckt } := ⟨rfl, rfl, rfl, rfl, rfl, rfl, rfl, rfl, rfl⟩
  by_cases hfull : uint32 s.iMTU < pTSPckt.size+188
  · simp only [if_pos hfull] at h
    cases h
    exact sends_trans hset (muxAggregate_sends _)
  · simp only [if_neg hfull] at h
    cases h
    exact hset

theorem sent_sends {pPckt : MediaPacket} (h : s.sent pPckt = .ok s') : Sends s s' := by
  rw [TSMultiplexer.sent] at h
  by_cases haggr : s.bAggr = true
  · rw [if_pos haggr] at h
    exact aggregated_sends h
  · rw [if_neg haggr] at h
    cases h
    exact mux_sends s pPckt

theorem release_sends {iStartDts iDuration : ℤ} {iTotal iPacket : ℕ} {iRefDts : ℤ}
    {vOut : List MediaPacket}
    (h : TSMultiplexer.release iStartDts iDuration iTotal iPacket iRefDts vOut s = .ok s') :
    Sends s s' := by
  induction vOut generalizing iPacket iRefDts s with
  | nil =>
    cases h
    exact ⟨rfl, rfl, rfl, rfl, rfl, rfl, rfl, rfl, rfl⟩
  | cons pPckt vOut ih =>
    rw [TSMultiplexer.release] at h
    by_cases hcontrol : pPckt.type ≠ .media
    · rw [if_pos hcontrol] at h
      exact sends_trans (sends_trans (muxAggregate_sends s) (mux_sends _ pPckt)) (ih h)
    · rw [if_neg hcontrol] at h
      obtain ⟨t, hone, h⟩ := bind_ok.1 h
      exact sends_trans (sent_sends hone) (ih h)

/-! ## Runs -/

/-- What holds at the start and is kept by every event holds after a run. -/
theorem run_kept {streamID : ℤ} {o : Settings} {events : List Event}
    (hinit : P (TSMultiplexer.init streamID o))
    (hevent : ∀ s s' a, P s → s.happened a = .ok s' → P s')
    (h : run streamID o events = .ok s') : P s' := by
  rw [run] at h
  generalize TSMultiplexer.init streamID o = s at hinit h
  induction events generalizing s with
  | nil =>
    cases h
    exact hinit
  | cons a events ih =>
    rw [runFrom] at h
    obtain ⟨t, hone, h⟩ := bind_ok.1 h
    exact ih t (hevent s t a hinit hone) h

/-- The parts of a pass. -/
theorem process_cases {fuel : ℕ} (h : s.process fuel = .ok s') :
    s' = s ∨ ∃ t iStream iStartDts r, s.toMultiplexer.checkMux = true ∧ s.referred = .ok t ∧
      t.toMultiplexer.selectMux = .ok iStream ∧ t.startDts iStream = .ok iStartDts ∧
      TSMultiplexer.pass iStartDts fuel iStream (t.selected iStream) = .ok r ∧ Sends r.2 s' := by
  rw [TSMultiplexer.process] at h
  by_cases hready : s.toMultiplexer.checkMux = false
  · rw [if_pos hready] at h
    cases h
    exact .inl rfl
  · rw [if_neg hready] at h
    by_cases hsources : 0 < s.iSources ∧ (s.mMux.size : ℤ) ≠ s.iSources
    · rw [if_pos hsources] at h
      cases h
    · rw [if_neg hsources] at h
      obtain ⟨t, hreferred, h⟩ := bind_ok.1 h
      rw [TSMultiplexer.processPass] at h
      obtain ⟨iStream, hselect, h⟩ := bind_ok.1 h
      obtain ⟨iStartDts, hstart, h⟩ := bind_ok.1 h
      obtain ⟨r, hpass, h⟩ := bind_ok.1 h
      exact .inr ⟨t, iStream, iStartDts, r, by simpa using hready, hreferred, hselect, hstart, hpass,
        release_sends h⟩

/-- The search ends with the tables prepared; what it changes besides is noted stream by stream. -/
theorem findRefStream_cases (h : s.findRefStream = .ok s') :
    ∃ r iSize, TSMultiplexer.referAll s.mMux.toList (s, 0) = .ok r ∧ 0 ≤ r.1.iRefStream ∧
      s' = ({ r.1 with iMuxRate := muxRate r.1.oMuxRate r.2 } : TSMultiplexer).prepared iSize := by
  rw [TSMultiplexer.findRefStream] at h
  obtain ⟨r, hall, h⟩ := bind_ok.1 h
  by_cases hnone : r.1.iRefStream < 0
  · rw [if_pos hnone] at h
    cases h
  · rw [if_neg hnone] at h
    obtain ⟨iSize, -, h⟩ := bind_ok.1 h
    cases h
    exact ⟨r, iSize, hall, by omega, rfl⟩

theorem referAll_kept {es : List (ℤ × Muxx)} {r r' : TSMultiplexer × ℤ}
    (hrefer : ∀ s i pPckt, P s → P (s.refer i pPckt)) (hr : P r.1)
    (h : TSMultiplexer.referAll es r = .ok r') : P r'.1 := by
  induction es generalizing r with
  | nil =>
    cases h
    exact hr
  | cons e es ih =>
    rw [TSMultiplexer.referAll] at h
    cases hqueue : e.2.vQueue with
    | nil =>
      rw [hqueue] at h
      exact ih hr h
    | cons pPckt rest =>
      rw [hqueue] at h
      dsimp only at h
      cases hdesc : pPckt.desc with
      | none =>
        rw [hdesc] at h
        cases h
      | some desc =>
        rw [hdesc] at h
        refine ih ?_ h
        exact hrefer r.1 e.1 pPckt hr

end Sirannon.TSMultiplexing
