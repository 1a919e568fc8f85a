import Sirannon.Recurrence
import Sirannon.TSPassRules

/-!
# How often the tables come

The cycle of a table is the number of steps in its interval at the given rate.
The product of rate and interval is an `int32_t`: it is right below a rate of
2^31/500, and then a PAT and a PMT come once in each cycle.
-/

set_option autoImplicit false

namespace Sirannon.TSMultiplexing
open Bits Media MachineInt Multiplexing Recurrence

/-! ## What is seen of a run -/

/-- A step with the kinds of packets it put into `vOut`, and whether it forced the tables first; or
the end of a pass at control packets. -/
inductive Entry
  | step (bForced : Bool) (kinds : List TSType)
  | control

/-- The special effect for key frames. -/
def TSMultiplexer.isForced (s : TSMultiplexer) (iStream : ℤ) : Bool :=
  match s.front iStream with
  | .ok front => s.bPSIonKey ∧ isFresh front.1 ∧ iStream = s.iRefStream ∧ front.2.key
  | .error _ => false

def createdSince (s t : TSMultiplexer) : List TSType :=
  (t.created.drop s.created.length).map fun r => r.iType

def stepsLog (iStream : ℤ) : ℕ → TSMultiplexer → List Entry
  | 0, _ => []
  | fuel+1, s =>
    match s.step iStream with
    | .error _ => []
    | .ok r => .step (s.isForced iStream) (createdSince s r.2)::
        if r.1 ∧ ¬s.bInterleave then stepsLog iStream fuel r.2 else []

def TSMultiplexer.isReached (s : TSMultiplexer) (iStartDts iStream : ℤ) : Except SirannonException Bool := do
  let front ← s.front iStream
  s.reached iStartDts iStream front.2

/-- The steps on one packet, and the stream that is next. -/
def TSMultiplexer.advance (s : TSMultiplexer) (fuel : ℕ) (iStream : ℤ) :
    Except SirannonException (ℤ × TSMultiplexer) := do
  let s ← s.steps iStream fuel
  let iStream ← s.toMultiplexer.selectMux
  return (iStream, s)

def passLog (iStartDts : ℤ) : ℕ → ℤ → TSMultiplexer → List Entry
  | 0, _, _ => []
  | fuel+1, iStream, s =>
    if iStream < 0 then [.control]
    else
      match s.isReached iStartDts iStream with
      | .ok false => stepsLog iStream fuel s ++
          match s.advance fuel iStream with
          | .ok r => passLog iStartDts fuel r.1 r.2
          | .error _ => []
      | _ => []

/-- The local reference stream of a pass, the DTS it starts at, and the state. -/
def TSMultiplexer.starts (s : TSMultiplexer) : Except SirannonException (ℤ × ℤ × TSMultiplexer) := do
  let s ← s.referred
  let iStream ← s.toMultiplexer.selectMux
  let iStartDts ← s.startDts iStream
  return (iStream, iStartDts, s.selected iStream)

def processLog (fuel : ℕ) (s : TSMultiplexer) : List Entry :=
  if s.toMultiplexer.checkMux = false ∨ 0 < s.iSources ∧ (s.mMux.size : ℤ) ≠ s.iSources then []
  else
    match s.starts with
    | .ok r => passLog r.2.1 fuel r.1 r.2.2
    | .error _ => []

/-- The steps of a run. -/
def runLog : List Event → TSMultiplexer → List Entry
  | [], _ => []
  | .receive pckt::events, s => runLog events (s.receive pckt)
  | .process fuel::events, s =>
    match s.process fuel with
    | .ok t => processLog fuel s ++ runLog events t
    | .error _ => processLog fuel s

/-! ## Cycles -/

/-- The cycles are what the intervals say. -/
structure Exact (s : TSMultiplexer) : Prop where
  PCR : s.SI.PCR.cycle = s.iMuxRate*20/1504000
  SDT : s.SI.SDT.cycle = s.iMuxRate*500/1504000
  PAT : s.SI.PAT.cycle = s.iMuxRate*100/1504000

theorem cycle_exact (iFree : ℤ) {iMuxRate interval : ℤ} (hrate : 1 < iMuxRate) (hpos : 0 < interval)
    (h : iMuxRate*interval < 2^31) : cycle iMuxRate iFree interval = iMuxRate*interval/1504000 := by
  have hprod : 0 < iMuxRate*interval := Int.mul_pos (by omega) hpos
  have hint : int32 (iMuxRate*interval) = iMuxRate*interval := by
    rw [int32, Int.bmod_def]
    split_ifs <;> omega
  rw [cycle, if_neg (by omega), hint, Int.tdiv_eq_ediv_of_nonneg (le_of_lt hprod)]
  rfl

/-- An overflow is seen in the cycle. -/
theorem cycle_overflow (iFree : ℤ) {iMuxRate interval : ℤ} (hrate : 1 < iMuxRate)
    (h : 2^31 ≤ iMuxRate*interval) : cycle iMuxRate iFree interval ≠ iMuxRate*interval/1504000 := by
  have hint : int32 (iMuxRate*interval) ≤ 2^31-1 ∧ int32 (iMuxRate*interval) ≤ iMuxRate*interval-2^32 := by
    rw [int32, Int.bmod_def]
    split_ifs <;> omega
  have hdiv : (int32 (iMuxRate*interval)).tdiv 1504000 ≤ int32 (iMuxRate*interval)/1504000+1 := by
    rw [Int.tdiv_eq_ediv, show Int.sign 1504000 = 1 from rfl]
    split_ifs <;> omega
  rw [cycle, if_neg (by omega)]
  show (int32 (iMuxRate*interval)).tdiv 1504000 ≠ _
  omega

/-! ## One step -/

variable {s t : TSMultiplexer} {iStream : ℤ}

def kindsOf (s : TSMultiplexer) : List TSType := s.created.map fun r => r.iType

/-- `kinds` were created, and the table of the PAT stays as it is but for its continuity counter. -/
structure Creates (s t : TSMultiplexer) (kinds : List TSType) : Prop where
  kinds : kindsOf t = kindsOf s ++ kinds
  count : t.SI.PAT.count = s.SI.PAT.count
  cycle : t.SI.PAT.cycle = s.SI.PAT.cycle
  iRefStream : t.iRefStream = s.iRefStream

theorem creates_nil (s : TSMultiplexer) : Creates s s [] := ⟨(List.append_nil _).symm, rfl, rfl, rfl⟩

theorem creates_trans {u : TSMultiplexer} {kinds kinds' : List TSType} (h : Creates s t kinds)
    (h' : Creates t u kinds') : Creates s u (kinds ++ kinds') where
  kinds := by rw [h'.kinds, h.kinds, List.append_assoc]
  count := h'.count.trans h.count
  cycle := h'.cycle.trans h.cycle
  iRefStream := h'.iRefStream.trans h.iRefStream

theorem created_creates {iType : TSType} {bStart bPCR : Bool} {n : ℕ}
    (h : s.createTSPacket iStream iType bStart bPCR = .ok (n, t)) : Creates s t [iType] := by
  obtain ⟨_, pPckt, _, _, _, _, _, _, _, _, _, rfl⟩ := created_cases h
  have hkinds : (s.taken iType iStream n pPckt).created = s.created := by
    cases iType <;> rfl
  constructor
  · show ((s.taken iType iStream n pPckt).created ++ [_]).map (fun r : Created => r.iType) = _
    rw [hkinds, List.map_append]
    rfl
  · cases iType <;> rfl
  · cases iType <;> rfl
  · cases iType <;> rfl

theorem createSDT_creates (h : s.createSDT iStream = .ok t) :
    ∃ kinds, Creates s t kinds ∧ (kinds = [] ∨ kinds = [.SDT]) := by
  rw [TSMultiplexer.createSDT] at h
  by_cases hdue : s.SI.SDT.count = 1
  · rw [if_pos hdue] at h
    obtain ⟨⟨n, u⟩, hcreate, rfl⟩ := map_ok.1 h
    exact ⟨[.SDT], created_creates hcreate, Or.inr rfl⟩
  · rw [if_neg hdue] at h
    cases h
    exact ⟨[], creates_nil s, Or.inl rfl⟩

theorem createPAT_creates (h : s.createPAT iStream = .ok t) :
    Creates s t (if s.SI.PAT.count = 1 then [.PAT, .PMT] else []) := by
  rw [TSMultiplexer.createPAT] at h
  by_cases hdue : s.SI.PAT.count = 1
  · rw [if_pos hdue] at h ⊢
    obtain ⟨⟨n, u⟩, hcreate, h⟩ := bind_ok.1 h
    obtain ⟨⟨m, v⟩, hcreate', rfl⟩ := map_ok.1 h
    exact creates_trans (created_creates hcreate) (created_creates hcreate')
  · rw [if_neg hdue] at h ⊢
    cases h
    exact creates_nil s

theorem createMedia_creates {pPckt : MediaPacket} {bStart bPCR : Bool}
    (h : s.createMedia iStream pPckt bStart bPCR = .ok t) :
    ∃ kind, Creates s t [kind] ∧ kind ≠ .PAT := by
  rw [TSMultiplexer.createMedia] at h
  by_cases hahead : s.ahead pPckt = true
  · rw [if_pos hahead] at h
    cases bPCR with
    | true =>
      obtain ⟨⟨n, u⟩, hcreate, rfl⟩ := map_ok.1 h
      exact ⟨.PCR, created_creates hcreate, by decide⟩
    | false =>
      obtain ⟨⟨n, u⟩, hcreate, rfl⟩ := map_ok.1 h
      exact ⟨.FILL, created_creates hcreate, by decide⟩
  · rw [if_neg hahead] at h
    obtain ⟨⟨n, u⟩, hcreate, h⟩ := bind_ok.1 h
    have hu := created_creates hcreate
    rw [TSMultiplexer.advanced] at h
    obtain ⟨front, -, h⟩ := bind_ok.1 h
    split_ifs at h
    cases h
    exact ⟨.PES, ⟨hu.kinds, hu.count, hu.cycle, hu.iRefStream⟩, by decide⟩

theorem depleted_creates {b : Bool} (h : s.depleted iStream = .ok (b, t)) : Creates s t [] := by
  rw [TSMultiplexer.depleted] at h
  obtain ⟨front, -, h⟩ := bind_ok.1 h
  split_ifs at h
  · cases h
    exact ⟨(List.append_nil _).symm, rfl, rfl, rfl⟩
  · cases h
    exact creates_nil s

/-- Whether a table comes or not, a PAT is followed by a PMT. -/
structure Paired (kinds : List TSType) (bTable : Bool) : Prop where
  count : kinds.count .PAT = bTable.toNat
  next : ∀ front back, kinds = front ++ .PAT::back → back.head? = some .PMT

theorem paired_kinds {sdt : List TSType} {kind : TSType} (hsdt : sdt = [] ∨ sdt = [.SDT])
    (hkind : kind ≠ .PAT) (bTable : Bool) :
    Paired (sdt ++ ((if bTable then [.PAT, .PMT] else []) ++ [kind])) bTable := by
  have hsdt : .PAT ∉ sdt := by
    rcases hsdt with rfl | rfl
    · exact List.not_mem_nil
    · decide
  have hcount : sdt.count .PAT = 0 := List.count_eq_zero.2 hsdt
  cases bTable with
  | true =>
    constructor
    · simp [hcount, hkind]
    · intro front back h
      have hback : .PAT ∉ [TSType.PMT, kind] := by simp [Ne.symm hkind]
      obtain ⟨-, -, rfl⟩ := (List.append_cons_inj_of_notMem hsdt hback).1 h
      rfl
  | false =>
    constructor
    · simp [hcount, hkind]
    · intro front back h
      have hmem : TSType.PAT ∈ front ++ .PAT::back := List.mem_append_right front List.mem_cons_self
      rw [← h] at hmem
      simp [hsdt, Ne.symm hkind] at hmem

/-- The number of steps until the table is due. -/
def due (n count : ℤ) : ℕ := if count = 0 then 0 else (n-count).toNat

/-- The counter of the PAT goes round in `n` steps. -/
structure Counting (n : ℤ) (s : TSMultiplexer) : Prop where
  cycle : s.SI.PAT.cycle = n
  count : 0 ≤ s.SI.PAT.count ∧ s.SI.PAT.count < n
  found : 0 ≤ s.iRefStream

/-- The counter before it ticks, and after. -/
def TSMultiplexer.patCount (s : TSMultiplexer) (iStream : ℤ) : ℤ :=
  if s.isForced iStream then 0 else s.SI.PAT.count

theorem tick_count {pMux : Muxx} {pPckt : MediaPacket} (hfront : s.front iStream = .ok (pMux, pPckt)) :
    (s.tick iStream pMux pPckt).PAT.count =
      (if s.patCount iStream+1 = s.SI.PAT.cycle then 0 else s.patCount iStream+1) ∧
    (s.tick iStream pMux pPckt).PAT.cycle = s.SI.PAT.cycle := by
  have hforced : s.isForced iStream =
      decide (s.bPSIonKey ∧ isFresh pMux ∧ iStream = s.iRefStream ∧ pPckt.key) := by
    rw [TSMultiplexer.isForced, hfront]
  rw [TSMultiplexer.tick, TSMultiplexer.patCount, hforced]
  by_cases h : s.bPSIonKey ∧ isFresh pMux ∧ iStream = s.iRefStream ∧ pPckt.key
  · rw [if_pos h, decide_eq_true h, if_pos rfl]
    show (ticked (forced s.SI.PAT)).count = _ ∧ (ticked (forced s.SI.PAT)).cycle = _
    rw [ticked, forced]
    split_ifs <;> exact ⟨rfl, rfl⟩
  · rw [if_neg h, decide_eq_false h, if_neg Bool.false_ne_true]
    show (ticked s.SI.PAT).count = _ ∧ (ticked s.SI.PAT).cycle = _
    rw [ticked]
    split_ifs <;> exact ⟨rfl, rfl⟩

theorem step_creates {b : Bool} (h : s.step iStream = .ok (b, t)) :
    ∃ pMux pPckt sdt kind, s.front iStream = .ok (pMux, pPckt) ∧ (sdt = [] ∨ sdt = [.SDT]) ∧ kind ≠ .PAT ∧
      Creates (s.begun iStream pMux pPckt) t
        (sdt ++ ((if (s.tick iStream pMux pPckt).PAT.count = 1 then [.PAT, .PMT] else []) ++ [kind])) := by
  rw [TSMultiplexer.step] at h
  obtain ⟨⟨pMux, pPckt⟩, hfront, h⟩ := bind_ok.1 h
  obtain ⟨u, hsdt, h⟩ := bind_ok.1 h
  obtain ⟨v, hpat, h⟩ := bind_ok.1 h
  obtain ⟨w, hmedia, hend⟩ := bind_ok.1 h
  obtain ⟨sdt, hu, hkinds⟩ := createSDT_creates hsdt
  have hv := createPAT_creates hpat
  obtain ⟨kind, hw, hkind⟩ := createMedia_creates hmedia
  have hall := creates_trans (creates_trans hu (creates_trans hv hw)) (depleted_creates hend)
  rw [List.append_nil, hu.count] at hall
  exact ⟨pMux, pPckt, sdt, kind, hfront, hkinds, hkind, hall⟩

theorem createdSince_creates {kinds : List TSType} {u : TSMultiplexer} (h : Creates u t kinds)
    (hu : u.created = s.created) : createdSince s t = kinds := by
  have hmap := h.kinds
  rw [kindsOf, kindsOf, hu] at hmap
  have hlen : s.created.length = (s.created.map fun r => r.iType).length := (List.length_map _).symm
  rw [createdSince, List.map_drop, hmap, hlen, List.drop_left]

theorem step_counts {n : ℤ} {b : Bool} (hn : 2 ≤ n) (hs : Counting n s) (h : s.step iStream = .ok (b, t)) :
    Counting n t ∧ ∃ bTable, Paired (createdSince s t) bTable ∧
      (bTable = true ↔ s.isForced iStream = true ∨ due n s.SI.PAT.count = 0) ∧
      due n t.SI.PAT.count = if bTable then (n-1).toNat else due n s.SI.PAT.count-1 := by
  obtain ⟨pMux, pPckt, sdt, kind, hfront, hsdt, hkind, hcreates⟩ := step_creates h
  obtain ⟨hcount, hcycle⟩ := tick_count hfront
  have hrange := hs.count
  have hstart : 0 ≤ s.patCount iStream ∧ s.patCount iStream < n := by
    rw [TSMultiplexer.patCount]
    split_ifs <;> omega
  have htcount : t.SI.PAT.count =
      if s.patCount iStream+1 = n then 0 else s.patCount iStream+1 := by
    rw [hcreates.count, ← hs.cycle]
    exact hcount
  have hzero : (s.tick iStream pMux pPckt).PAT.count = 1 ↔ s.patCount iStream = 0 := by
    rw [hcount, hs.cycle]
    split_ifs <;> omega
  have hdue : s.patCount iStream = 0 ↔ s.isForced iStream = true ∨ due n s.SI.PAT.count = 0 := by
    rw [TSMultiplexer.patCount, due]
    by_cases hforced : s.isForced iStream = true
    · simp [hforced]
    · rw [if_neg hforced]
      split_ifs <;> simp [hforced] <;> omega
  refine ⟨⟨?_, ?_, ?_⟩, decide (s.patCount iStream = 0), ?_, ?_, ?_⟩
  · exact hcreates.cycle.trans (hcycle.trans hs.cycle)
  · rw [htcount]
    split_ifs <;> omega
  · rw [hcreates.iRefStream]
    exact hs.found
  · rw [createdSince_creates (s := s) hcreates rfl]
    have hpaired := paired_kinds hsdt hkind (decide (s.patCount iStream = 0))
    simp only [decide_eq_true_eq, ← hzero] at hpaired ⊢
    exact hpaired
  · rw [decide_eq_true_eq, hdue]
  · rw [htcount]
    by_cases hnow : s.patCount iStream = 0
    · rw [decide_eq_true hnow, if_pos rfl, hnow, if_neg (by omega), due, if_neg (by omega)]
      rfl
    · have hforced : s.isForced iStream = false := by
        by_contra hyes
        exact hnow (hdue.2 (Or.inl (by simpa using hyes)))
      have hsame : s.patCount iStream = s.SI.PAT.count := by
        rw [TSMultiplexer.patCount, hforced]
        rfl
      rw [decide_eq_false hnow, if_neg Bool.false_ne_true, due, due]
      rw [hsame] at hnow ⊢
      split_ifs <;> omega

/-! ## Runs -/

def Entry.beat : Entry → Beat
  | .step bForced kinds => .step bForced (kinds.count .PAT)
  | .control => .restart

/-- Wherever a PAT is created a PMT follows. -/
def Entry.isPaired : Entry → Prop
  | .step _ kinds => ∀ front back, kinds = front ++ .PAT::back → back.head? = some .PMT
  | .control => True

/-- A log that goes on as the counter says. -/
structure Timed (n count : ℤ) (log : List Entry) : Prop where
  regular : Regular n.toNat (due n count) (log.map Entry.beat)
  paired : ∀ e ∈ log, e.isPaired

/-- What comes behind a part of a run: it goes on with the counter, or the run has ended. -/
def Follows (n : ℤ) (r : Except SirannonException TSMultiplexer) (log : List Entry) : Prop :=
  match r with
  | .ok t => Counting n t → Timed n t.SI.PAT.count log
  | .error _ => log = []

variable {n : ℤ} {rest : List Entry}

theorem timed_nil (n count : ℤ) : Timed n count [] := ⟨trivial, by simp⟩

theorem timed_step {b : Bool} {log : List Entry} (hn : 2 ≤ n) (hs : Counting n s)
    (hstep : s.step iStream = .ok (b, t)) (hlog : Timed n t.SI.PAT.count log) :
    Timed n s.SI.PAT.count (.step (s.isForced iStream) (createdSince s t)::log) := by
  obtain ⟨-, bTable, hpaired, htable, hdue⟩ := step_counts hn hs hstep
  have hregular := hlog.regular
  constructor
  · rw [List.map_cons, Entry.beat, Regular, hpaired.count]
    by_cases hnow : s.isForced iStream = true ∨ due n s.SI.PAT.count = 0
    · rw [if_pos hnow]
      rw [hdue, htable.2 hnow, if_pos rfl] at hregular
      refine ⟨by rw [htable.2 hnow]; rfl, ?_⟩
      have hpred : n.toNat-1 = (n-1).toNat := by omega
      rw [hpred]
      exact hregular
    · have hno : bTable = false := by
        by_contra hyes
        exact hnow (htable.1 (by simpa using hyes))
      rw [if_neg hnow]
      rw [hdue, hno, if_neg Bool.false_ne_true] at hregular
      exact ⟨by rw [hno]; rfl, hregular⟩
  · rw [List.forall_mem_cons]
    exact ⟨hpaired.next, hlog.paired⟩

theorem steps_timed (fuel : ℕ) (hn : 2 ≤ n) (hs : Counting n s) (hrest : Follows n (s.steps iStream fuel) rest) :
    Timed n s.SI.PAT.count (stepsLog iStream fuel s ++ rest) := by
  induction fuel generalizing s with
  | zero =>
    rw [TSMultiplexer.steps] at hrest
    have hnil : rest = [] := hrest
    rw [hnil]
    exact timed_nil n _
  | succ fuel ih =>
    rw [TSMultiplexer.steps] at hrest
    rw [stepsLog]
    cases hstep : s.step iStream with
    | error e =>
      rw [hstep] at hrest
      have hnil : rest = [] := hrest
      rw [hnil]
      exact timed_nil n _
    | ok r =>
      obtain ⟨ht, -⟩ := step_counts hn hs hstep
      rw [hstep] at hrest
      change Follows n (if r.1 = true ∧ ¬s.bInterleave = true then TSMultiplexer.steps iStream fuel r.2
        else .ok r.2) rest at hrest
      dsimp only
      rw [List.cons_append]
      apply timed_step hn hs hstep
      by_cases hmore : r.1 = true ∧ ¬s.bInterleave = true
      · rw [if_pos hmore] at hrest ⊢
        exact ih ht hrest
      · rw [if_neg hmore] at hrest ⊢
        exact hrest ht

theorem control_counting {iStartDts : ℤ} {r : ℤ × TSMultiplexer} (hn : 2 ≤ n) (hs : Counting n s)
    (h : s.control iStartDts = .ok r) : Counting n r.2 ∧ r.2.SI.PAT.count = 0 := by
  rw [TSMultiplexer.control] at h
  obtain ⟨q, -, h⟩ := bind_ok.1 h
  cases h
  have hzero : (s.SI.tables forced).PAT.count = 0 := rfl
  refine ⟨⟨hs.cycle, ?_, hs.found⟩, hzero⟩
  show 0 ≤ (s.SI.tables forced).PAT.count ∧ (s.SI.tables forced).PAT.count < n
  rw [hzero]
  omega

/-- The steps on one packet, and what the pass does behind them. -/
theorem advance_timed {iStartDts : ℤ} (fuel : ℕ) (hn : 2 ≤ n) (hs : Counting n s)
    (hpass : ∀ i t, Counting n t → Follows n ((TSMultiplexer.pass iStartDts fuel i t).map Prod.snd) rest →
      Timed n t.SI.PAT.count (passLog iStartDts fuel i t ++ rest))
    (hrest : Follows n ((s.steps iStream fuel >>= fun s => s.toMultiplexer.selectMux >>= fun iStream =>
      TSMultiplexer.pass iStartDts fuel iStream s).map Prod.snd) rest) :
    Timed n s.SI.PAT.count ((stepsLog iStream fuel s ++ match s.advance fuel iStream with
      | .ok r => passLog iStartDts fuel r.1 r.2
      | .error _ => []) ++ rest) := by
  rw [List.append_assoc, TSMultiplexer.advance]
  apply steps_timed fuel hn hs
  cases hsteps : s.steps iStream fuel with
  | error e =>
    rw [hsteps] at hrest
    exact hrest
  | ok t =>
    intro ht
    rw [hsteps] at hrest
    cases hselect : t.toMultiplexer.selectMux with
    | error e =>
      have hnil : rest = [] := by
        change Follows n (Except.map Prod.snd (t.toMultiplexer.selectMux >>= fun iStream =>
          TSMultiplexer.pass iStartDts fuel iStream t)) rest at hrest
        rw [hselect] at hrest
        exact hrest
      rw [hnil]
      show Timed n t.SI.PAT.count ((match (t.toMultiplexer.selectMux >>= fun iStream =>
        (.ok (iStream, t) : Except SirannonException (ℤ × TSMultiplexer))) with
        | .ok r => passLog iStartDts fuel r.1 r.2
        | .error _ => []) ++ [])
      rw [hselect]
      exact timed_nil n _
    | ok i =>
      change Follows n (Except.map Prod.snd (t.toMultiplexer.selectMux >>= fun iStream =>
        TSMultiplexer.pass iStartDts fuel iStream t)) rest at hrest
      rw [hselect] at hrest
      show Timed n t.SI.PAT.count ((match (t.toMultiplexer.selectMux >>= fun iStream =>
        (.ok (iStream, t) : Except SirannonException (ℤ × TSMultiplexer))) with
        | .ok r => passLog iStartDts fuel r.1 r.2
        | .error _ => []) ++ rest)
      rw [hselect]
      exact hpass i t ht hrest

theorem pass_timed {iStartDts : ℤ} (fuel : ℕ) (hn : 2 ≤ n) (hs : Counting n s)
    (hrest : Follows n ((TSMultiplexer.pass iStartDts fuel iStream s).map Prod.snd) rest) :
    Timed n s.SI.PAT.count (passLog iStartDts fuel iStream s ++ rest) := by
  induction fuel generalizing s iStream with
  | zero =>
    have hnil : rest = [] := hrest
    rw [hnil]
    exact timed_nil n _
  | succ fuel ih =>
    rw [TSMultiplexer.pass] at hrest
    rw [passLog]
    by_cases hend : iStream < 0
    · rw [if_pos hend] at hrest ⊢
      have hlog : Timed n 0 rest := by
        cases hcontrol : s.control iStartDts with
        | error e =>
          rw [hcontrol] at hrest
          have hnil : rest = [] := hrest
          rw [hnil]
          exact timed_nil n 0
        | ok r =>
          obtain ⟨hr, hzero⟩ := control_counting hn hs hcontrol
          rw [hcontrol] at hrest
          rw [← hzero]
          exact hrest hr
      constructor
      · exact hlog.regular
      · rw [List.singleton_append, List.forall_mem_cons]
        exact ⟨trivial, hlog.paired⟩
    · rw [if_neg hend] at hrest ⊢
      cases hfront : s.front iStream with
      | error e =>
        rw [hfront] at hrest
        have hnil : rest = [] := hrest
        rw [TSMultiplexer.isReached, hfront, hnil]
        exact timed_nil n _
      | ok front =>
        rw [hfront] at hrest
        rw [TSMultiplexer.isReached, hfront]
        change Follows n (Except.map Prod.snd (s.reached iStartDts iStream front.2 >>= fun bReached => _)) rest
          at hrest
        change Timed n s.SI.PAT.count ((match s.reached iStartDts iStream front.2 with
          | .ok false => _
          | _ => []) ++ rest)
        cases hreached : s.reached iStartDts iStream front.2 with
        | error e =>
          rw [hreached] at hrest
          have hnil : rest = [] := hrest
          rw [hnil]
          exact timed_nil n _
        | ok bReached =>
          rw [hreached] at hrest
          cases bReached with
          | true => exact hrest hs
          | false =>
            exact advance_timed fuel hn hs (fun i t ht hr => ih ht hr) hrest

theorem sends_counting (h : Sends s t) (hs : Counting n s) : Counting n t := by
  refine ⟨?_, ?_, ?_⟩
  · rw [h.SI]
    exact hs.cycle
  · rw [h.SI]
    exact hs.count
  · rw [h.iRefStream]
    exact hs.found

theorem processPass_starts {fuel : ℕ} (h : s.referred = .ok s) : s.processPass fuel =
    (s.starts >>= fun r => TSMultiplexer.pass r.2.1 fuel r.1 r.2.2 >>= fun q =>
      TSMultiplexer.release r.2.1 q.1 q.2.vOut.length 0 0 q.2.vOut q.2) := by
  rw [TSMultiplexer.processPass, TSMultiplexer.starts, h]
  cases hselect : s.toMultiplexer.selectMux with
  | error e => simp [hselect, bind, Except.bind]
  | ok iStream =>
    cases hstart : s.startDts iStream with
    | error e => simp [hselect, hstart, bind, Except.bind]
    | ok iStartDts => simp [hselect, hstart, bind, Except.bind, pure, Except.pure]

theorem starts_state {r : ℤ × ℤ × TSMultiplexer} (h : s.referred = .ok s) (hstarts : s.starts = .ok r) :
    r.2.2 = s.selected r.1 := by
  rw [TSMultiplexer.starts] at hstarts
  obtain ⟨t, ht, hstarts⟩ := bind_ok.1 hstarts
  obtain rfl : s = t := Except.ok.inj (h.symm.trans ht)
  obtain ⟨iStream, -, hstarts⟩ := bind_ok.1 hstarts
  obtain ⟨iStartDts, -, hstarts⟩ := bind_ok.1 hstarts
  cases hstarts
  rfl

/-- Releasing leaves the counter alone. -/
theorem released_follows {iStartDts : ℤ} {r : Except SirannonException (ℤ × TSMultiplexer)}
    (h : Follows n (r >>= fun q => TSMultiplexer.release iStartDts q.1 q.2.vOut.length 0 0 q.2.vOut q.2) rest) :
    Follows n (r.map Prod.snd) rest := by
  cases r with
  | error e => exact h
  | ok q =>
    intro hq
    change Follows n (TSMultiplexer.release iStartDts q.1 q.2.vOut.length 0 0 q.2.vOut q.2) rest at h
    cases hrelease : TSMultiplexer.release iStartDts q.1 q.2.vOut.length 0 0 q.2.vOut q.2 with
    | error e =>
      rw [hrelease] at h
      have hnil : rest = [] := h
      rw [hnil]
      exact timed_nil n _
    | ok t =>
      rw [hrelease] at h
      have hsends := release_sends hrelease
      show Timed n q.2.SI.PAT.count rest
      rw [← hsends.SI]
      exact h (sends_counting hsends hq)

theorem process_timed (fuel : ℕ) (hn : 2 ≤ n) (hs : Counting n s) (hrest : Follows n (s.process fuel) rest) :
    Timed n s.SI.PAT.count (processLog fuel s ++ rest) := by
  have hfound := hs.found
  have hreferred : s.referred = .ok s := by rw [TSMultiplexer.referred, if_neg (by omega)]
  rw [TSMultiplexer.process] at hrest
  rw [processLog]
  by_cases hready : s.toMultiplexer.checkMux = false
  · rw [if_pos hready] at hrest
    rw [if_pos (Or.inl hready)]
    exact hrest hs
  · rw [if_neg hready] at hrest
    by_cases hsources : 0 < s.iSources ∧ (s.mMux.size : ℤ) ≠ s.iSources
    · rw [if_pos hsources] at hrest
      have hnil : rest = [] := hrest
      rw [if_pos (Or.inr hsources), hnil]
      exact timed_nil n _
    · rw [if_neg hsources, hreferred] at hrest
      rw [if_neg (not_or.2 ⟨hready, hsources⟩)]
      change Follows n (s.processPass fuel) rest at hrest
      rw [processPass_starts hreferred] at hrest
      cases hstarts : s.starts with
      | error e =>
        rw [hstarts] at hrest
        have hnil : rest = [] := hrest
        rw [hnil]
        exact timed_nil n _
      | ok r =>
        obtain ⟨iStream, iStartDts, u⟩ := r
        have hu : u = s.selected iStream := starts_state hreferred hstarts
        subst hu
        have hcounting : Counting n (s.selected iStream) := ⟨hs.cycle, hs.count, hs.found⟩
        rw [hstarts] at hrest
        show Timed n (s.selected iStream).SI.PAT.count _
        apply pass_timed fuel hn hcounting
        exact released_follows hrest

theorem runLog_timed (events : List Event) (hn : 2 ≤ n) (hs : Counting n s) :
    Timed n s.SI.PAT.count (runLog events s) := by
  induction events generalizing s with
  | nil => exact timed_nil n _
  | cons a events ih =>
    cases a with
    | receive pckt => exact ih (s := s.receive pckt) ⟨hs.cycle, hs.count, hs.found⟩
    | process fuel =>
      rw [runLog]
      cases hprocess : s.process fuel with
      | error e =>
        dsimp only
        rw [← List.append_nil (processLog fuel s)]
        apply process_timed fuel hn hs
        rw [hprocess]
        rfl
      | ok t =>
        dsimp only
        apply process_timed fuel hn hs
        rw [hprocess]
        exact ih

/-! ## The reference stream -/

theorem found_preserved : Preserved (fun s => 0 ≤ s.iRefStream) where
  begun := fun _ _ _ _ h => h
  created := by
    intro s s' iStream iType bStart bPCR n _ h hrun
    rw [(created_creates hrun).iRefStream]
    exact h
  advanced := by
    intro s s' iStream n h hrun
    rw [TSMultiplexer.advanced] at hrun
    obtain ⟨front, -, hrun⟩ := bind_ok.1 hrun
    split_ifs at hrun
    cases hrun
    exact h
  popped := fun _ _ h => h

theorem process_found {fuel : ℕ} (h : s.process fuel = .ok t) : t = s ∨ 0 ≤ t.iRefStream := by
  rcases process_cases h with rfl | ⟨u, i, iStartDts, r, -, hreferred, -, -, hpass, hsend⟩
  · exact Or.inl rfl
  · right
    have hu : 0 ≤ u.iRefStream := by
      rw [TSMultiplexer.referred] at hreferred
      by_cases hnone : s.iRefStream < 0
      · rw [if_pos hnone] at hreferred
        obtain ⟨q, iSize, -, hq, rfl⟩ := findRefStream_cases hreferred
        exact hq
      · rw [if_neg hnone] at hreferred
        cases hreferred
        exact not_lt.1 hnone
    rw [hsend.iRefStream]
    apply pass_preserved found_preserved _ (s := u.selected i) hu hpass
    intro s r iStartDts hs hcontrol
    rw [TSMultiplexer.control] at hcontrol
    obtain ⟨q, -, hcontrol⟩ := bind_ok.1 hcontrol
    cases hcontrol
    exact hs

/-- Until the reference stream is found the tables are new. -/
theorem run_unfound {streamID : ℤ} {o : Settings} {events : List Event} (h : run streamID o events = .ok s) :
    s.iRefStream < 0 → s.SI = SITable.new := by
  apply run_kept (P := fun s => s.iRefStream < 0 → s.SI = SITable.new) (fun _ => rfl) _ h
  intro s t a hs hrun
  cases a with
  | receive pckt =>
    cases hrun
    exact hs
  | process fuel =>
    rcases process_found hrun with rfl | hfound
    · exact hs
    · intro hnone
      omega

theorem refer_tables (s : TSMultiplexer) (i : ℤ) (pPckt : MediaPacket) : (s.refer i pPckt).SI = s.SI := by
  rw [TSMultiplexer.refer]
  cases pPckt.content <;> rfl

/-- The cycles that are found, and a count of zero. -/
theorem found_cycles (hSI : s.SI = SITable.new) (h : s.findRefStream = .ok t) :
    t.SI.PCR.cycle = cycle t.iMuxRate 3 20 ∧ t.SI.SDT.cycle = cycle t.iMuxRate 500 500 ∧
      t.SI.PAT.cycle = cycle t.iMuxRate 100 100 ∧ t.SI.PAT.count = 0 ∧ 0 ≤ t.iRefStream := by
  obtain ⟨r, iSize, hall, href, rfl⟩ := findRefStream_cases h
  have htables : r.1.SI = SITable.new := by
    apply referAll_kept (P := fun s => s.SI = SITable.new) _ hSI hall
    intro s i pPckt hs
    rw [refer_tables, hs]
  rw [TSMultiplexer.prepared]
  dsimp only
  rw [htables]
  exact ⟨rfl, rfl, rfl, rfl, href⟩

/-! ## Windows -/

def Entry.tables (e : Entry) : ℕ := e.beat.fires

/-- A PMT follows each PAT, and there is one at the first step, at the first one behind control
packets, and in each window of `n` steps that none but the first one of it was forced in. -/
structure Repeated (n : ℤ) (log : List Entry) : Prop where
  paired : ∀ e ∈ log, e.isPaired
  first : ∀ front e back, log = front ++ e::back → e.beat.isStep →
    front = [] ∨ (∃ es, front = es ++ [.control]) → e.tables = 1
  window : ∀ front e rest back, log = front ++ e::rest ++ back → (rest.length : ℤ)+1 = n → e.beat.isStep →
    (∀ e' ∈ rest, e'.beat.isPlain) → ((e::rest).map Entry.tables).sum = 1

theorem timed_repeated {log : List Entry} (hn : 2 ≤ n) (h : Timed n 0 log) : Repeated n log := by
  have hregular : Regular n.toNat 0 (log.map Entry.beat) := h.regular
  constructor
  · exact h.paired
  · intro front e back hlog hstep hfront
    rw [hlog, List.map_append, List.map_cons] at hregular
    apply first_fires hregular hstep
    rcases hfront with rfl | ⟨es, rfl⟩
    · exact Or.inl ⟨rfl, rfl⟩
    · right
      exact ⟨es.map Entry.beat, by rw [List.map_append]; rfl⟩
  · intro front e rest back hlog hlen hstep hplain
    rw [hlog, List.map_append, List.map_append, List.map_cons] at hregular
    have hwindow := window_fires (show 0 < n.toNat by omega) hregular hstep (by
      intro b hb
      obtain ⟨e', he', rfl⟩ := List.mem_map.1 hb
      exact hplain e' he') (by
      rw [List.length_map]
      omega)
    rw [← List.map_cons, List.map_map] at hwindow
    exact hwindow

/-- From 1 Mbit/s on the tables come as the intervals say just when no product with the rate
overflows. -/
theorem tables_repeated_iff {streamID : ℤ} {o : Settings} {before : List Event} {s₀ s : TSMultiplexer}
    (hrun : run streamID o before = .ok s₀) (hnew : s₀.iRefStream < 0) (hfound : s₀.findRefStream = .ok s)
    (hrate : 1000000 ≤ s.iMuxRate) (events : List Event) :
    Exact s ∧ Repeated s.SI.PAT.cycle (runLog events s) ↔ s.iMuxRate*500 < 2^31 := by
  obtain ⟨hPCR, hSDT, hPAT, hcount, href⟩ := found_cycles (run_unfound hrun hnew) hfound
  constructor
  · intro h
    by_contra hover
    exact cycle_overflow 500 (by omega) (not_lt.1 hover) (hSDT.symm.trans h.1.SDT)
  · intro hsmall
    have hexact : Exact s := by
      constructor
      · rw [hPCR, cycle_exact 3 (by omega) (by decide) (by omega)]
      · rw [hSDT, cycle_exact 500 (by omega) (by decide) hsmall]
      · rw [hPAT, cycle_exact 100 (by omega) (by decide) (by omega)]
    have hn : 2 ≤ s.SI.PAT.cycle := by
      rw [hexact.PAT]
      omega
    have hcounting : Counting s.SI.PAT.cycle s := ⟨rfl, by omega, href⟩
    refine ⟨hexact, timed_repeated hn ?_⟩
    rw [← hcount]
    exact runLog_timed events hn hcounting

/-- One packet of video at a fixed rate. -/
def oneVideo : List Event :=
  [.receive { MediaPacket.new .media .video 100 with
    codec := .avc, desc := some ⟨.video, .avc, 320, 240, 0, 0, 0, []⟩, bytes := List.replicate 100 0 }]

def fixedRate (mux_rate : ℤ) : Settings := { Settings.default with mux_rate := mux_rate }

/-- The rate and the cycles of the clock, the SDT and the PAT. -/
def cyclesIn : Except SirannonException TSMultiplexer → Option (ℤ × ℤ × ℤ × ℤ)
  | .ok s => some (s.iMuxRate, s.SI.PCR.cycle, s.SI.SDT.cycle, s.SI.PAT.cycle)
  | .error _ => none

theorem tables_repeated_two : ∃ s₀ s, run 0 (fixedRate 2000000) oneVideo = .ok s₀ ∧
    s₀.findRefStream = .ok s ∧ s.iMuxRate = 2000000 ∧ Exact s ∧
      Repeated s.SI.PAT.cycle (runLog [.process 9, .process 9] s) := by
  have hcycles : cyclesIn (run 0 (fixedRate 2000000) oneVideo >>= TSMultiplexer.findRefStream) =
      some (2000000, 26, 664, 132) := by decide +kernel
  cases hrun : run 0 (fixedRate 2000000) oneVideo with
  | error e =>
    rw [hrun] at hcycles
    cases hcycles
  | ok s₀ =>
    rw [hrun] at hcycles
    change cyclesIn s₀.findRefStream = _ at hcycles
    have hnew : s₀.iRefStream < 0 := by
      cases hrun
      decide
    cases hfound : s₀.findRefStream with
    | error e =>
      rw [hfound] at hcycles
      cases hcycles
    | ok s =>
      rw [hfound] at hcycles
      have hrate : s.iMuxRate = 2000000 := congrArg Prod.fst (Option.some.inj hcycles)
      refine ⟨s₀, s, rfl, hfound, hrate, ?_⟩
      exact (tables_repeated_iff hrun hnew hfound (by omega) [.process 9, .process 9]).2 (by omega)

/-- At 30 Mbit/s the cycles of the SDT and of the PAT overflow. -/
theorem tables_overflow : ∃ s₀ s, run 0 (fixedRate 30000000) oneVideo = .ok s₀ ∧
    s₀.findRefStream = .ok s ∧ s.iMuxRate = 30000000 ∧ s.SI.PAT.cycle = -861 ∧ ¬ Exact s := by
  have hcycles : cyclesIn (run 0 (fixedRate 30000000) oneVideo >>= TSMultiplexer.findRefStream) =
      some (30000000, 398, 1406, -861) := by decide +kernel
  cases hrun : run 0 (fixedRate 30000000) oneVideo with
  | error e =>
    rw [hrun] at hcycles
    cases hcycles
  | ok s₀ =>
    rw [hrun] at hcycles
    change cyclesIn s₀.findRefStream = _ at hcycles
    cases hfound : s₀.findRefStream with
    | error e =>
      rw [hfound] at hcycles
      cases hcycles
    | ok s =>
      rw [hfound] at hcycles
      have hall := Prod.mk.inj (Option.some.inj hcycles)
      have hPAT := (Prod.mk.inj (Prod.mk.inj hall.2).2).2
      refine ⟨s₀, s, rfl, hfound, hall.1, hPAT, ?_⟩
      intro hexact
      have hwrong := hexact.PAT
      rw [hPAT, hall.1] at hwrong
      exact absurd hwrong (by decide)

end Sirannon.TSMultiplexing
