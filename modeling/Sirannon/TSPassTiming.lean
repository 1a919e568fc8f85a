import Sirannon.TSQueueTiming

/-!
# The time of a pass

A pass ends at control packets, or where the next one starts. Its packets share
the time that it took, so the DTS that are sent do not fall, as long as the
product of the time and the number of packets fits into 32 bits.
-/

set_option autoImplicit false

namespace Sirannon.TSMultiplexing
open Bits Media MachineInt Multiplexing
open Std (TreeMap)

/-! ## What a pass finds at its ends -/

/-- Every queue holds a packet, and those of media are due from `B` on. -/
def DueFrom (B : ℤ) (s : TSMultiplexer) : Prop :=
  ∀ i c, s.cores i = some c → ∃ front rest, c.vQueue = front::rest ∧ (front.type = .media → B ≤ front.dts)

variable {s t u : TSMultiplexer} {iStream lo hi B L : ℤ} {r : ℤ × TSMultiplexer}

theorem entry_core {e : ℤ × Muxx} (he : e ∈ s.mMux.toList) : s.cores e.1 = some (core e.2) := by
  rw [TSMultiplexer.cores, TreeMap.mem_toList_iff_getElem?_eq_some.mp he]
  rfl

theorem core_entry {i : ℤ} {c : Core} (h : s.cores i = some c) :
    ∃ pMux, (i, pMux) ∈ s.mMux.toList ∧ core pMux = c := by
  obtain ⟨pMux, hentry, hcore⟩ := Option.map_eq_some_iff.1 h
  exact ⟨pMux, TreeMap.mem_toList_iff_getElem?_eq_some.mpr hentry, hcore⟩

theorem selectMux_due (h : s.toMultiplexer.selectMux = .ok iStream) : iStream = -1 ∨
    ∃ c front rest, s.cores iStream = some c ∧ c.vQueue = front::rest ∧ front.type = .media ∧
      DueFrom front.dts s := by
  rcases selectLoop_first (entries_sorted s.toMultiplexer) h with
    ⟨hnone, -⟩ | ⟨e, he, front, ⟨rest, hqueue⟩, hmedia, hi, -, hall⟩
  · exact Or.inl hnone
  · right
    rw [← hi]
    refine ⟨core e.2, front, rest, entry_core he, hqueue, hmedia, ?_⟩
    intro i c hc
    obtain ⟨pMux, hentry, rfl⟩ := core_entry hc
    obtain ⟨f, ⟨rest', hf⟩, hle⟩ := hall _ hentry
    refine ⟨f, rest', hf, fun hkind => ?_⟩
    have hle := hle hkind
    omega

/-- A control packet is due when none at the front of a queue is due later; all fronts leave. -/
structure Controlled (s t : TSMultiplexer) (pckt : MediaPacket) : Prop where
  kind : pckt.type ≠ .media
  found : ∃ i c rest, s.cores i = some c ∧ c.vQueue = pckt::rest
  fronts : ∀ i c, s.cores i = some c →
    ∃ front rest, c.vQueue = front::rest ∧ front.type ≠ .media ∧ front.dts ≤ pckt.dts
  tails : ∀ i d, t.cores i = some d → ∃ c, s.cores i = some c ∧ d = { c with vQueue := c.vQueue.tail }

theorem popControl_core {pMux pMux' : Muxx} (h : pMux.popControl = some pMux') :
    core pMux' = { core pMux with vQueue := pMux.vQueue.tail } := by
  rw [Muxx.popControl] at h
  cases hqueue : pMux.vQueue with
  | nil =>
    rw [hqueue] at h
    cases h
    rw [core, hqueue]
    rfl
  | cons front rest =>
    rw [hqueue] at h
    dsimp only at h
    split_ifs at h
    cases h
    rfl

theorem control_controlled {iStartDts : ℤ} (h : s.control iStartDts = .ok r) :
    ∃ pckt, Controlled s r.2 pckt ∧ r.1 = int32 (pckt.dts-iStartDts) ∧
      r.2.vOut = s.vOut ++ [control pckt] := by
  rw [TSMultiplexer.control] at h
  obtain ⟨⟨q, m⟩, hreset, h⟩ := bind_ok.1 h
  cases h
  rw [Multiplexer.resetMux] at hreset
  split at hreset
  · cases hreset
  · cases hreset
  · rename_i pckt hloop
    cases hreset
    obtain ⟨hfound, -, hall⟩ := resetLoop_selects (by simp) hloop
    refine ⟨pckt, ?_, rfl, rfl⟩
    rcases hfound with hnone | ⟨e, he, rest, hqueue⟩
    · cases hnone
    · have hkind : pckt.type ≠ .media := by
        obtain ⟨front, ⟨rest', hfront⟩, hkind, -⟩ := hall e he
        rw [hqueue] at hfront
        cases hfront
        exact hkind
      constructor
      · exact hkind
      · exact ⟨e.1, core e.2, rest, entry_core he, hqueue⟩
      · intro i c hc
        obtain ⟨pMux, hentry, rfl⟩ := core_entry hc
        obtain ⟨front, ⟨rest', hfront⟩, htype, hle⟩ := hall _ hentry
        exact ⟨front, rest', hfront, htype, hle⟩
      · intro i d hd
        change (s.toMultiplexer.popControls.mMux[i]?).map core = some d at hd
        rw [popControls_get] at hd
        obtain ⟨pMux', hpop, rfl⟩ := Option.map_eq_some_iff.1 hd
        obtain ⟨pMux, hentry, hpop⟩ := Option.bind_eq_some_iff.1 hpop
        refine ⟨core pMux, ?_, popControl_core hpop⟩
        rw [TSMultiplexer.cores, hentry]
        rfl

theorem tail_steady {c : Core} {front : MediaPacket} {rest : List MediaPacket} (h : Steady lo hi c)
    (hc : c.vQueue = front::rest) (hkind : front.type ≠ .media) :
    Steady lo hi { c with vQueue := rest } ∧ Core.timings { c with vQueue := rest } <:+ c.timings := by
  have hfresh : c.iOrigSize < 0 := by
    by_contra hbegun
    exact hkind (front_moved h hc (not_lt.1 hbegun)).1
  have htimings : Core.timings { c with vQueue := rest } = c.timings.tail := by
    rw [Core.timings, Core.timings, hc]
    cases rest with
    | nil => rfl
    | cons q rest =>
      dsimp only
      rw [if_pos hfresh]
      rfl
  constructor
  · constructor
    · rw [htimings]
      exact spaced_sublist h.spaced (List.tail_sublist _)
    · intro hbegun
      exact absurd hbegun (not_le.2 hfresh)
  · rw [htimings]
    exact List.tail_suffix _

/-! ## A pass -/

/-- A pass from `B` on took the time `D`: it ended with a control packet, or where the next one starts. -/
structure Passed (lo hi B : ℤ) (s t : TSMultiplexer) (D : ℤ) : Prop where
  steady : ∀ i c, t.cores i = some c → Steady lo hi c
  shrinks : Shrinks s t
  duration : 0 ≤ D ∧ B+D < hi
  ended : (∃ vOut q, t.vOut = vOut ++ [q] ∧ q.type ≠ .media) ∨
    DueFrom (B+D) t ∧ t.mMux.size = s.mMux.size

theorem size_preserved (n : ℕ) : Preserved (fun s => s.mMux.size = n) where
  begun s iStream pMux pPckt hs := by
    show (s.mMux.modify iStream (started pPckt)).size = n
    rw [TreeMap.size_modify, hs]
  created s s' iStream iType bStart bPCR m _ hs h := by
    obtain ⟨_, pPckt, _, _, _, _, _, _, _, _, _, rfl⟩ := created_cases h
    show (s.taken iType iStream m pPckt).mMux.size = n
    cases iType with
    | SDT => exact hs
    | PAT => exact hs
    | PCR => exact hs
    | FILL => exact hs
    | PMT =>
      show (s.mMux.map fun _ pMux => detected pMux).size = n
      rw [TreeMap.size_map, hs]
    | PES =>
      show (s.mMux.modify iStream _).size = n
      rw [TreeMap.size_modify, hs]
  advanced s s' iStream m hs h := by
    rw [TSMultiplexer.advanced] at h
    obtain ⟨front, -, h⟩ := bind_ok.1 h
    split_ifs at h
    cases h
    show (s.mMux.modify iStream _).size = n
    rw [TreeMap.size_modify, hs]
  popped s iStream hs := by
    show (s.mMux.modify iStream popped).size = n
    rw [TreeMap.size_modify, hs]

/-- The time between two DTS of the range. -/
theorem int32_between {x : ℤ} (hspan : hi ≤ lo+2^31) (hB : lo ≤ B) (hx : B ≤ x ∧ x < hi) :
    int32 (x-B) = x-B := by
  rw [int32, Int.bmod_def]
  split_ifs <;> omega

theorem controlled_steady {pckt : MediaPacket} (hs : ∀ i c, s.cores i = some c → Steady lo hi c)
    (h : Controlled s t pckt) : (∀ i c, t.cores i = some c → Steady lo hi c) ∧ Shrinks s t := by
  have htail : ∀ i d, t.cores i = some d → Steady lo hi d ∧ d.timings <:+ s.timings i := by
    intro i d hd
    obtain ⟨c, hc, rfl⟩ := h.tails i d hd
    obtain ⟨front, rest, hqueue, hkind, -⟩ := h.fronts i c hc
    rw [timings_some hc, hqueue]
    exact tail_steady (hs i c hc) hqueue hkind
  constructor
  · exact fun i d hd => (htail i d hd).1
  · intro i
    rw [TSMultiplexer.timings]
    cases hd : t.cores i with
    | none => exact List.nil_suffix
    | some d => exact (htail i d hd).2

theorem control_passed (hs : Holding lo hi B L s) (hspan : hi ≤ lo+2^31) (hB : lo ≤ B)
    (h : s.control B = .ok r) : Passed lo hi B s r.2 r.1 := by
  obtain ⟨pckt, hctrl, hD, hvOut⟩ := control_controlled h
  obtain ⟨hsteady, hshrinks⟩ := controlled_steady hs.steady hctrl
  obtain ⟨c, hc⟩ := hs.present
  obtain ⟨front, rest, hqueue, -, hle⟩ := hctrl.fronts L c hc
  have hfront : B ≤ front.dts := hs.above L c front rest hc hqueue (Or.inr rfl)
  obtain ⟨i, d, rest', hd, hpckt⟩ := hctrl.found
  have hend : pckt.dts < hi := (steady_range (hs.steady i d hd) hpckt).2
  rw [hD, int32_between hspan hB ⟨hfront.trans hle, hend⟩]
  constructor
  · exact hsteady
  · exact hshrinks
  · omega
  · exact Or.inl ⟨s.vOut, control pckt, hvOut, hctrl.kind⟩

theorem pass_passed {fuel : ℕ} (hs : Holding lo hi B L s) (hlo : -2^31 ≤ lo) (hhi : hi ≤ 2^31)
    (hspan : hi ≤ lo+2^31) (hB : lo ≤ B) (hselect : s.toMultiplexer.selectMux = .ok iStream)
    (h : TSMultiplexer.pass B fuel iStream s = .ok r) : Passed lo hi B s r.2 r.1 := by
  induction fuel generalizing s iStream with
  | zero => cases h
  | succ fuel ih =>
    rw [TSMultiplexer.pass] at h
    by_cases hcontrol : iStream < 0
    · rw [if_pos hcontrol] at h
      exact control_passed hs hspan hB h
    · rw [if_neg hcontrol] at h
      obtain ⟨⟨pMux, pPckt⟩, hfront, h⟩ := bind_ok.1 h
      obtain ⟨bReached, -, h⟩ := bind_ok.1 h
      obtain ⟨hcore, rest, hqueue⟩ := front_core hfront
      rcases selectMux_due hselect with hnone | ⟨c, front, rest', hc, hqueue', hmedia, hled⟩
      · omega
      · rw [hcore] at hc
        cases hc
        rw [hqueue] at hqueue'
        cases hqueue'
        cases bReached with
        | true =>
          cases h
          have hle : B ≤ pPckt.dts := hs.above iStream _ pPckt rest hcore hqueue (Or.inl hmedia)
          have hless : pPckt.dts < hi := (steady_range (hs.steady iStream _ hcore) hqueue).2
          dsimp only
          rw [int32_between hspan hB ⟨hle, hless⟩]
          constructor
          · exact hs.steady
          · exact fun i => List.suffix_rfl
          · omega
          · right
            rw [add_sub_cancel]
            exact ⟨hled, rfl⟩
        | false =>
          obtain ⟨t, hsteps, h⟩ := bind_ok.1 h
          obtain ⟨i, hselect', h⟩ := bind_ok.1 h
          obtain ⟨ht, hshrinks⟩ := steps_holding hs hlo hhi ⟨_, pPckt, rest, hcore, hqueue, hmedia⟩ hsteps
          have hpassed := ih ht hselect' h
          have hsize : t.mMux.size = s.mMux.size := steps_preserved (size_preserved s.mMux.size) rfl hsteps
          constructor
          · exact hpassed.steady
          · exact shrinks_trans hshrinks hpassed.shrinks
          · exact hpassed.duration
          · rw [← hsize]
            exact hpassed.ended

/-! ## Sending -/

/-- What a pass does not touch: what was sent, the aggregate in work and the settings. -/
structure Outgoing where
  routed : List MediaPacket
  pTSPckt : Option MediaPacket
  bCont : Bool
  bAggr : Bool
  iSources : ℤ

def TSMultiplexer.outgoing (s : TSMultiplexer) : Outgoing :=
  ⟨s.routed, s.pTSPckt, s.bCont, s.bAggr, s.iSources⟩

theorem taken_outgoing (s : TSMultiplexer) (iType : TSType) (iStream : ℤ) (n : ℕ) (pPckt : MediaPacket) :
    (s.taken iType iStream n pPckt).outgoing = s.outgoing := by
  cases iType with
  | SDT => rfl
  | PAT => rfl
  | PMT => rfl
  | PCR => rfl
  | FILL => rfl
  | PES => rfl

theorem appended_outgoing (s : TSMultiplexer) (r : Created) : (s.appended r).outgoing = s.outgoing := rfl

theorem outgoing_preserved (f : Outgoing) : Preserved (fun s => s.outgoing = f) where
  begun s iStream pMux pPckt hs := hs
  created s s' iStream iType bStart bPCR m _ hs h := by
    obtain ⟨_, pPckt, _, _, _, _, _, _, _, _, _, rfl⟩ := created_cases h
    rw [appended_outgoing, taken_outgoing]
    exact hs
  advanced s s' iStream m hs h := by
    rw [TSMultiplexer.advanced] at h
    obtain ⟨front, -, h⟩ := bind_ok.1 h
    split_ifs at h
    cases h
    exact hs
  popped s iStream hs := hs

theorem control_outgoing {iStartDts : ℤ} (h : s.control iStartDts = .ok r) : r.2.outgoing = s.outgoing := by
  rw [TSMultiplexer.control] at h
  obtain ⟨⟨q, m⟩, hreset, h⟩ := bind_ok.1 h
  cases h
  rw [Multiplexer.resetMux] at hreset
  split at hreset
  · cases hreset
  · cases hreset
  · cases hreset
    rfl

theorem pass_outgoing {fuel : ℕ} {iStartDts : ℤ} (h : TSMultiplexer.pass iStartDts fuel iStream s = .ok r) :
    r.2.outgoing = s.outgoing :=
  pass_preserved (outgoing_preserved s.outgoing) (fun _ _ _ hs hr => (control_outgoing hr).trans hs) rfl h

/-- The packets that were sent, and the aggregate behind them. -/
def Outgoing.stamps (f : Outgoing) : List Timing := (f.routed ++ f.pTSPckt.toList).map timing

/-- The DTS do not fall from one media packet to the next. -/
def Rising (a b : Timing) : Prop := a.type = .media → b.type = .media → a.dts ≤ b.dts

/-- What is sent rises, and has come to `x` at most; without aggregation none is in work. -/
structure Sent (x : ℤ) (f : Outgoing) : Prop where
  rising : f.stamps.IsChain Rising
  last : ∀ a, f.stamps.getLast? = some a → a.type = .media → a.dts ≤ x
  simple : f.bAggr = false → f.pTSPckt = none

variable {x y : ℤ} {p : MediaPacket}

theorem sent_mono {f : Outgoing} (h : Sent x f) (hle : x ≤ y) : Sent y f :=
  ⟨h.rising, fun a ha hmedia => (h.last a ha hmedia).trans hle, h.simple⟩

theorem sent_snoc {f g : Outgoing} (hf : Sent x f) (hg : g.stamps = f.stamps ++ [timing p])
    (hsimple : g.bAggr = false → g.pTSPckt = none) (hx : p.type = .media → x ≤ p.dts ∧ p.dts ≤ y) : Sent y g := by
  constructor
  · rw [hg, List.isChain_append]
    refine ⟨hf.rising, List.isChain_singleton _, ?_⟩
    intro a ha b hb hmedia hmedia'
    rw [List.head?_singleton] at hb
    cases hb
    exact (hf.last a ha hmedia).trans (hx hmedia').1
  · intro a ha hmedia
    rw [hg, List.getLast?_append, List.getLast?_singleton] at ha
    cases ha
    exact (hx hmedia).2
  · exact hsimple

theorem muxAggregate_stamps (s : TSMultiplexer) :
    s.muxAggregate.outgoing.stamps = s.outgoing.stamps ∧ s.muxAggregate.pTSPckt = none := by
  rw [TSMultiplexer.muxAggregate]
  cases hpckt : s.pTSPckt with
  | none =>
    exact ⟨rfl, hpckt⟩
  | some pTSPckt =>
    constructor
    · show ((s.routed ++ [_]) ++ []).map timing = (s.routed ++ s.pTSPckt.toList).map timing
      rw [hpckt, List.append_nil, List.map_append, List.map_append]
      rfl
    · rfl

theorem muxAggregate_sent (h : Sent x s.outgoing) : Sent x s.muxAggregate.outgoing := by
  obtain ⟨hstamps, hnone⟩ := muxAggregate_stamps s
  constructor
  · rw [hstamps]
    exact h.rising
  · rw [hstamps]
    exact h.last
  · exact fun _ => hnone

/-- What has no aggregate in front of it is sent behind all the rest. -/
theorem mux_sent (h : Sent x s.outgoing) (hnone : s.pTSPckt = none)
    (hx : p.type = .media → x ≤ p.dts ∧ p.dts ≤ y) : Sent y (s.mux p).outgoing := by
  apply sent_snoc h _ (fun _ => hnone) hx
  show ((s.routed ++ [_]) ++ s.pTSPckt.toList).map timing = (s.routed ++ s.pTSPckt.toList).map timing ++ [timing p]
  rw [hnone, Option.toList_none, List.append_nil, List.append_nil, List.map_append]
  rfl

theorem push_back_timing {q : MediaPacket} {buffer : List UInt8} (h : p.push_back buffer = .ok q) :
    timing q = timing p := by
  rw [MediaPacket.push_back] at h
  split_ifs at h
  cases h
  rfl

theorem muxAggregate_cont (s : TSMultiplexer) : s.muxAggregate.bCont = s.bCont := by
  rw [TSMultiplexer.muxAggregate]
  cases s.pTSPckt <;> rfl

/-- Data that join an aggregate are sent with its DTS. -/
theorem aggregated_sent (h : Sent x s.outgoing) (hx : x ≤ p.dts ∧ p.dts ≤ y) (haggr : s.bAggr = true)
    (hrun : s.aggregated p = .ok t) : Sent y t.outgoing ∧ t.bCont = s.bCont := by
  rw [TSMultiplexer.aggregated] at hrun
  obtain ⟨q, hpush, hrun⟩ := bind_ok.1 hrun
  have htiming := push_back_timing hpush
  have hsimple : s.bAggr = false → some q = none := by
    intro hnot
    rw [haggr] at hnot
    cases hnot
  have hset : Sent y ({ s with pTSPckt := some q } : TSMultiplexer).outgoing := by
    cases hpckt : s.pTSPckt with
    | none =>
      rw [hpckt] at htiming
      apply sent_snoc h _ hsimple fun _ => hx
      show (s.routed ++ [q]).map timing = (s.routed ++ s.pTSPckt.toList).map timing ++ [timing p]
      rw [hpckt, List.map_append, List.map_singleton, htiming, Option.toList_none, List.append_nil]
      rfl
    | some a =>
      rw [hpckt] at htiming
      have hstamps : (s.routed ++ [q]).map timing = s.outgoing.stamps := by
        show _ = (s.routed ++ s.pTSPckt.toList).map timing
        rw [hpckt, List.map_append, List.map_singleton, htiming, List.map_append]
        rfl
      have hmono := sent_mono h (hx.1.trans hx.2)
      constructor
      · show ((s.routed ++ [q]).map timing).IsChain Rising
        rw [hstamps]
        exact hmono.rising
      · show ∀ a, ((s.routed ++ [q]).map timing).getLast? = some a → _
        rw [hstamps]
        exact hmono.last
      · exact hsimple
  dsimp only at hrun
  by_cases hfull : uint32 s.iMTU < q.size+188
  · rw [if_pos hfull] at hrun
    cases hrun
    exact ⟨muxAggregate_sent hset, muxAggregate_cont _⟩
  · rw [if_neg hfull] at hrun
    cases hrun
    exact ⟨hset, rfl⟩

theorem sent_sent (h : Sent x s.outgoing) (hx : x ≤ p.dts ∧ p.dts ≤ y) (hrun : s.sent p = .ok t) :
    Sent y t.outgoing ∧ t.bCont = s.bCont := by
  rw [TSMultiplexer.sent] at hrun
  by_cases haggr : s.bAggr = true
  · rw [if_pos haggr] at hrun
    exact aggregated_sent h hx haggr hrun
  · rw [if_neg haggr] at hrun
    cases hrun
    have hnot : s.bAggr = false := by simpa using haggr
    exact ⟨mux_sent h (h.simple hnot) fun _ => hx, rfl⟩

/-! ## The release of a pass -/

/-- The DTS of packet `k` of `n` that share the time `D`. -/
def dueDts (B D : ℤ) (n k : ℕ) : ℤ := B+(k*D)/n

variable {D : ℤ} {n k : ℕ}

theorem due_start (B D : ℤ) (n : ℕ) : dueDts B D n 0 = B := by
  rw [dueDts, Nat.cast_zero, zero_mul, Int.zero_ediv, add_zero]

theorem due_mono (hD : 0 ≤ D) (hk : k < n) : dueDts B D n k ≤ dueDts B D n (k+1) := by
  have hle : (k : ℤ)*D ≤ ((k+1 : ℕ) : ℤ)*D := Int.mul_le_mul_of_nonneg_right (by omega) hD
  have hdiv := Int.ediv_le_ediv (show (0 : ℤ) < n by omega) hle
  rw [dueDts, dueDts]
  omega

theorem due_le (hD : 0 ≤ D) (hk : k ≤ n) : dueDts B D n k ≤ B+D := by
  have hle : (k : ℤ)*D ≤ n*D := Int.mul_le_mul_of_nonneg_right (by omega) hD
  have hdiv : ((k : ℤ)*D)/n ≤ D := by
    by_cases hn : n = 0
    · rw [hn, Nat.cast_zero, Int.ediv_zero]
      exact hD
    · apply Int.ediv_le_of_le_mul (by omega)
      rw [mul_comm D]
      exact hle
  rw [dueDts]
  omega

/-- Nothing overflows in the DTS of a packet. -/
theorem due_int32 (hD : 0 ≤ D) (hk : k ≤ n) (hsmall : n*D < 2^31) (hB : -2^31 ≤ B) (hend : B+D < 2^31) :
    int32 (B+(int32 (k*D)).tdiv n) = dueDts B D n k := by
  have hpos : 0 ≤ (k : ℤ)*D := Int.mul_nonneg (by omega) hD
  have hle : (k : ℤ)*D ≤ n*D := Int.mul_le_mul_of_nonneg_right (by omega) hD
  have hint : int32 (k*D) = k*D := by
    rw [int32, Int.bmod_def]
    split_ifs <;> omega
  have hdue := due_le (B := B) hD hk
  have hquot : 0 ≤ (k : ℤ)*D/n := Int.ediv_nonneg hpos (by omega)
  rw [hint, Int.tdiv_eq_ediv_of_nonneg hpos]
  rw [dueDts] at hdue ⊢
  rw [int32, Int.bmod_def]
  split_ifs <;> omega

/-- The packets in front of `rest` are sent. -/
theorem release_part {iRefDts : ℤ} {vOut rest : List MediaPacket} (hcont : s.bCont = true) (hD : 0 ≤ D)
    (hsmall : n*D < 2^31) (hB : -2^31 ≤ B) (hend : B+D < 2^31) (hk : k+vOut.length ≤ n)
    (hs : Sent (dueDts B D n k) s.outgoing)
    (h : TSMultiplexer.release B D n k iRefDts (vOut ++ rest) s = .ok t) :
    ∃ u k' iRefDts', k' ≤ k+vOut.length ∧ Sent (dueDts B D n k') u.outgoing ∧ u.bCont = true ∧
      TSMultiplexer.release B D n k' iRefDts' rest u = .ok t := by
  induction vOut generalizing s k iRefDts with
  | nil => exact ⟨s, k, iRefDts, le_refl _, hs, hcont, h⟩
  | cons p vOut ih =>
    rw [List.length_cons] at hk
    rw [List.cons_append, TSMultiplexer.release] at h
    by_cases hkind : p.type ≠ .media
    · rw [if_pos hkind] at h
      have hmux : Sent (dueDts B D n k) (s.muxAggregate.mux p).outgoing :=
        mux_sent (muxAggregate_sent hs) (muxAggregate_stamps s).2 fun hmedia => absurd hmedia hkind
      have hmuxcont : (s.muxAggregate.mux p).bCont = true := (muxAggregate_cont s).trans hcont
      obtain ⟨u, k', iRefDts', hk', hu, hucont, hrun⟩ :=
        ih hmuxcont (show k+vOut.length ≤ n by omega) hmux h
      exact ⟨u, k', iRefDts', by rw [List.length_cons]; omega, hu, hucont, hrun⟩
    · rw [if_neg hkind] at h
      obtain ⟨v, hone, h⟩ := bind_ok.1 h
      rw [if_pos hcont, due_int32 hD (by omega) hsmall hB hend] at hone
      have hgrows : dueDts B D n k ≤ dueDts B D n (k+1) := due_mono hD (by omega)
      obtain ⟨hv, hvcont⟩ := sent_sent hs ⟨le_refl _, hgrows⟩ hone
      obtain ⟨u, k', iRefDts', hk', hu, hucont, hrun⟩ := ih (hvcont.trans hcont) (show k+1+vOut.length ≤ n by omega) hv h
      exact ⟨u, k', iRefDts', by rw [List.length_cons]; omega, hu, hucont, hrun⟩

/-- A pass that is sent comes up to its end. -/
theorem release_sent {vOut : List MediaPacket} (hcont : s.bCont = true) (hD : 0 ≤ D) (hsmall : n*D < 2^31)
    (hB : -2^31 ≤ B) (hend : B+D < 2^31) (hlength : vOut.length = n) (hs : Sent B s.outgoing)
    (h : TSMultiplexer.release B D n 0 0 vOut s = .ok t) : Sent (B+D) t.outgoing ∧ t.bCont = true := by
  rw [← List.append_nil vOut] at h
  rw [← due_start B D n] at hs
  obtain ⟨u, k, _, hk, hu, hucont, hrun⟩ := release_part hcont hD hsmall hB hend (by omega) hs h
  cases hrun
  exact ⟨sent_mono hu (due_le hD (by omega)), hucont⟩

/-- Behind a control packet the DTS may start anew. -/
theorem release_control {iStartDts iDuration : ℤ} {iTotal iPacket : ℕ} {iRefDts : ℤ} {q : MediaPacket}
    (hkind : q.type ≠ .media) (hs : Sent x s.outgoing)
    (h : TSMultiplexer.release iStartDts iDuration iTotal iPacket iRefDts [q] s = .ok t) :
    (∀ y, Sent y t.outgoing) ∧ t.bCont = s.bCont := by
  rw [TSMultiplexer.release, if_pos hkind] at h
  cases h
  refine ⟨?_, muxAggregate_cont s⟩
  intro y
  exact mux_sent (muxAggregate_sent hs) (muxAggregate_stamps s).2 fun hmedia => absurd hmedia hkind

theorem release_controlled {vOut : List MediaPacket} {q : MediaPacket} (hcont : s.bCont = true) (hD : 0 ≤ D)
    (hsmall : n*D < 2^31) (hB : -2^31 ≤ B) (hend : B+D < 2^31) (hlength : vOut.length+1 = n)
    (hkind : q.type ≠ .media) (hs : Sent B s.outgoing)
    (h : TSMultiplexer.release B D n 0 0 (vOut ++ [q]) s = .ok t) :
    (∀ y, Sent y t.outgoing) ∧ t.bCont = true := by
  rw [← due_start B D n] at hs
  obtain ⟨u, k, iRefDts, hk, hu, hucont, hrun⟩ := release_part hcont hD hsmall hB hend (by omega) hs h
  obtain ⟨ht, htcont⟩ := release_control hkind hu hrun
  exact ⟨ht, htcont.trans hucont⟩

theorem release_empties {iStartDts iDuration : ℤ} {iTotal iPacket : ℕ} {iRefDts : ℤ} {vOut : List MediaPacket}
    (h : TSMultiplexer.release iStartDts iDuration iTotal iPacket iRefDts vOut s = .ok t) : t.vOut = [] := by
  induction vOut generalizing s iPacket iRefDts with
  | nil =>
    cases h
    rfl
  | cons p vOut ih =>
    rw [TSMultiplexer.release] at h
    by_cases hkind : p.type ≠ .media
    · rw [if_pos hkind] at h
      exact ih h
    · rw [if_neg hkind] at h
      obtain ⟨v, -, h⟩ := bind_ok.1 h
      exact ih h

end Sirannon.TSMultiplexing
