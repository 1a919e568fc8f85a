import Sirannon.TSPassRules

/-!
# The DTS of waiting packets

The DTS of the packet at the front of a queue moves with the data sent of it.
It stays below its own DTS and duration, and so below the DTS of the packets
behind it, when these keep their distance.
-/

set_option autoImplicit false

namespace Sirannon.TSMultiplexing
open Bits Media MachineInt Multiplexing
open Std (TreeMap)

structure Timing where
  type : PacketType
  dts : ℤ
  inc : ℤ

def timing (p : MediaPacket) : Timing := ⟨p.type, p.dts, p.inc⟩

/-- What counts in the entry of a stream: its queue, and the size and DTS that its front had. -/
structure Core where
  vQueue : List MediaPacket
  iOrigSize : ℤ
  iOrigDTS : ℤ

def core (pMux : Muxx) : Core := ⟨pMux.vQueue, pMux.iOrigSize, pMux.iOrigDTS⟩

/-- The timing of the packets of a queue as they came in. -/
def Core.timings (c : Core) : List Timing :=
  match c.vQueue with
  | [] => []
  | front::rest =>
    ⟨front.type, if c.iOrigSize < 0 then front.dts else c.iOrigDTS, front.inc⟩::rest.map timing

attribute [grind =] Core.timings

/-- DTS between `lo` and `hi`, to the end of each frame. -/
structure Timing.Fits (lo hi : ℤ) (a : Timing) : Prop where
  range : lo ≤ a.dts ∧ a.dts < hi
  inc : a.type = .media → 0 ≤ a.inc ∧ 184*a.inc < 2^31 ∧ a.dts+a.inc < hi

/-- A frame is over when the next packet of its stream starts. -/
def Timing.Before (a b : Timing) : Prop := a.type = .media → a.dts+a.inc ≤ b.dts

/-- A front of which `size` bytes are left moved on as far as the data sent of it allow. -/
structure Moved (c : Core) (front : MediaPacket) : Prop where
  before : c.iOrigDTS ≤ front.dts
  after : front.dts ≤ c.iOrigDTS+front.inc
  sent : (front.dts-c.iOrigDTS)*c.iOrigSize ≤ (c.iOrigSize-front.size)*front.inc

structure Spaced (lo hi : ℤ) (as : List Timing) : Prop where
  fits : ∀ a ∈ as, a.Fits lo hi
  before : as.Pairwise Timing.Before

/-- Only a media packet is begun. -/
structure Steady (lo hi : ℤ) (c : Core) : Prop where
  spaced : Spaced lo hi c.timings
  moved : 0 ≤ c.iOrigSize →
    ∃ front rest, c.vQueue = front::rest ∧ front.type = .media ∧ Moved c front

/-! ## One queue -/

def Core.started (c : Core) : Core :=
  match c.vQueue with
  | [] => c
  | p::_ => if c.iOrigSize < 0 then { c with iOrigSize := p.size, iOrigDTS := p.dts } else c

/-- `n` bytes of the front are sent, and its DTS moves. -/
def Core.sent (c : Core) (n : ℕ) (dts : ℤ) : Core :=
  match c.vQueue with
  | [] => c
  | p::rest => { c with vQueue := { p.popped n with dts := dts }::rest }

def Core.popped (c : Core) : Core := { c with vQueue := c.vQueue.tail, iOrigSize := -1 }

variable {lo hi : ℤ} {c : Core} {p : MediaPacket} {rest : List MediaPacket}

theorem started_queue (c : Core) : c.started.vQueue = c.vQueue := by
  rw [Core.started]
  split
  · rfl
  · split_ifs <;> rfl

theorem started_begun (hc : c.vQueue = p::rest) : 0 ≤ c.started.iOrigSize := by
  rw [Core.started, hc]
  dsimp only
  split_ifs with h
  · exact Int.natCast_nonneg p.size
  · exact not_lt.1 h

theorem started_timings (c : Core) : c.started.timings = c.timings := by
  rw [Core.timings, started_queue, Core.timings]
  cases hc : c.vQueue with
  | nil => rfl
  | cons p rest =>
    have hbegun := started_begun hc
    dsimp only
    rw [if_neg (by omega), Core.started, hc]
    dsimp only
    split_ifs <;> rfl

theorem spaced_sublist {as bs : List Timing} (h : Spaced lo hi bs) (hsub : as.Sublist bs) :
    Spaced lo hi as :=
  ⟨fun a ha => h.fits a (hsub.subset ha), h.before.sublist hsub⟩

theorem front_timing (hc : c.vQueue = p::rest) :
    (⟨p.type, if c.iOrigSize < 0 then p.dts else c.iOrigDTS, p.inc⟩ : Timing) ∈ c.timings := by
  rw [Core.timings, hc]
  exact List.mem_cons_self

theorem front_moved (h : Steady lo hi c) (hc : c.vQueue = p::rest) (hbegun : 0 ≤ c.iOrigSize) :
    p.type = .media ∧ Moved c p := by
  obtain ⟨front, rest', hqueue, hmedia, hmoved⟩ := h.moved hbegun
  rw [hc] at hqueue
  cases hqueue
  exact ⟨hmedia, hmoved⟩

/-- The timing of a front that was begun. -/
theorem begun_fits (h : Steady lo hi c) (hc : c.vQueue = p::rest) (hbegun : 0 ≤ c.iOrigSize) :
    Timing.Fits lo hi ⟨p.type, c.iOrigDTS, p.inc⟩ := by
  have hfits := h.spaced.fits _ (front_timing hc)
  rw [if_neg (by omega)] at hfits
  exact hfits

theorem fresh_fits (h : Steady lo hi c) (hc : c.vQueue = p::rest) (hfresh : c.iOrigSize < 0) :
    (timing p).Fits lo hi := by
  have hfits := h.spaced.fits _ (front_timing hc)
  rw [if_pos hfresh] at hfits
  exact hfits

/-- A front stays in the range. -/
theorem steady_range (h : Steady lo hi c) (hc : c.vQueue = p::rest) : lo ≤ p.dts ∧ p.dts < hi := by
  by_cases hfresh : c.iOrigSize < 0
  · exact (fresh_fits h hc hfresh).range
  · have hfits := begun_fits h hc (not_lt.1 hfresh)
    obtain ⟨hmedia, hmoved⟩ := front_moved h hc (not_lt.1 hfresh)
    have hrange : lo ≤ c.iOrigDTS ∧ _ := hfits.range
    have hend : c.iOrigDTS+p.inc < hi := (hfits.inc hmedia).2.2
    have hbefore := hmoved.before
    have hafter := hmoved.after
    omega

theorem started_steady (h : Steady lo hi c) (hc : c.vQueue = p::rest) (hmedia : p.type = .media) :
    Steady lo hi c.started := by
  constructor
  · rw [started_timings]
    exact h.spaced
  · intro _
    refine ⟨p, rest, (started_queue c).trans hc, hmedia, ?_⟩
    rw [Core.started, hc]
    dsimp only
    by_cases hfresh : c.iOrigSize < 0
    · rw [if_pos hfresh]
      have hinc : 0 ≤ p.inc := ((fresh_fits h hc hfresh).inc hmedia).1
      constructor
      · exact le_refl p.dts
      · dsimp only
        omega
      · dsimp only
        simp
    · rw [if_neg hfresh]
      exact (front_moved h hc (not_lt.1 hfresh)).2

theorem sent_timings {n : ℕ} {dts : ℤ} (hbegun : 0 ≤ c.iOrigSize) : (c.sent n dts).timings = c.timings := by
  rw [Core.sent]
  cases hc : c.vQueue with
  | nil => rfl
  | cons p rest =>
    dsimp only
    rw [Core.timings, Core.timings, hc]
    dsimp only
    rw [if_neg (by omega), if_neg (by omega)]
    rfl

/-- The DTS moves in proportion to the data sent. -/
theorem sent_steady {n : ℕ} (h : Steady lo hi c) (hlo : -2^31 ≤ lo) (hhi : hi ≤ 2^31) (hc : c.vQueue = p::rest)
    (hmedia : p.type = .media) (hbegun : 0 < c.iOrigSize) (hn : n ≤ 184) (hsize : n ≤ p.size) :
    p.dts ≤ int32 (p.dts+(int32 (n*p.inc)).tdiv c.iOrigSize) ∧
      Steady lo hi (c.sent n (int32 (p.dts+(int32 (n*p.inc)).tdiv c.iOrigSize))) := by
  have hfits := begun_fits h hc (le_of_lt hbegun)
  obtain ⟨hinc, hsmall, hend⟩ := hfits.inc hmedia
  have hmoved := (front_moved h hc (le_of_lt hbegun)).2
  have hrange := hfits.range
  dsimp only at hinc hsmall hend hrange
  have hprod : 0 ≤ n*p.inc ∧ n*p.inc < 2^31 := by
    have hle : (n : ℤ)*p.inc ≤ 184*p.inc := Int.mul_le_mul_of_nonneg_right (by omega) hinc
    exact ⟨Int.mul_nonneg (by omega) hinc, by omega⟩
  have hint : int32 (n*p.inc) = n*p.inc := by
    rw [int32, Int.bmod_def]
    split_ifs <;> omega
  rw [hint, Int.tdiv_eq_ediv_of_nonneg hprod.1]
  generalize hshift : (n*p.inc)/c.iOrigSize = k
  have hk : 0 ≤ k ∧ k*c.iOrigSize ≤ n*p.inc := by
    rw [← hshift]
    exact ⟨Int.ediv_nonneg hprod.1 (le_of_lt hbegun), Int.ediv_mul_le _ (by omega)⟩
  have hleft : (c.iOrigSize-((p.size-n : ℕ) : ℤ))*p.inc = (c.iOrigSize-p.size)*p.inc+n*p.inc := by
    rw [Nat.cast_sub hsize]
    ring
  have hsent : (p.dts+k-c.iOrigDTS)*c.iOrigSize ≤ (c.iOrigSize-((p.size-n : ℕ) : ℤ))*p.inc := by
    rw [hleft]
    calc (p.dts+k-c.iOrigDTS)*c.iOrigSize = (p.dts-c.iOrigDTS)*c.iOrigSize+k*c.iOrigSize := by ring
      _ ≤ (c.iOrigSize-p.size)*p.inc+n*p.inc := Int.add_le_add hmoved.sent hk.2
  -- All of it is sent at most, so the DTS moves by the duration at most.
  have hafter : p.dts+k-c.iOrigDTS ≤ p.inc := by
    have hall : (p.dts+k-c.iOrigDTS)*c.iOrigSize ≤ p.inc*c.iOrigSize := by
      apply hsent.trans
      rw [mul_comm p.inc]
      exact Int.mul_le_mul_of_nonneg_right (by omega) hinc
    exact le_of_mul_le_mul_right hall hbegun
  have hbefore := hmoved.before
  have hdts : int32 (p.dts+k) = p.dts+k := by
    rw [int32, Int.bmod_def]
    split_ifs <;> omega
  rw [hdts]
  refine ⟨by omega, ?_, ?_⟩
  · rw [sent_timings (le_of_lt hbegun)]
    exact h.spaced
  · intro _
    rw [Core.sent, hc]
    refine ⟨_, rest, rfl, hmedia, ?_⟩
    constructor
    · show c.iOrigDTS ≤ p.dts+k
      omega
    · show p.dts+k ≤ c.iOrigDTS+p.inc
      omega
    · show (p.dts+k-c.iOrigDTS)*c.iOrigSize ≤ (c.iOrigSize-((p.popped n).size : ℤ))*p.inc
      rw [popped_size]
      exact hsent

theorem popped_timings (c : Core) : c.popped.timings = c.timings.tail := by
  rw [Core.timings, Core.popped, Core.timings]
  cases c.vQueue with
  | nil => rfl
  | cons p rest =>
    cases rest with
    | nil => rfl
    | cons q rest => rfl

theorem popped_steady (h : Steady lo hi c) : Steady lo hi c.popped := by
  constructor
  · rw [popped_timings]
    exact spaced_sublist h.spaced (List.tail_sublist _)
  · intro hbegun
    exact absurd (show (0 : ℤ) ≤ -1 from hbegun) (by decide)

/-- The next packet has no lower DTS. -/
theorem popped_grows {q : MediaPacket} (h : Steady lo hi c) (hc : c.vQueue = p::q::rest)
    (hbegun : 0 ≤ c.iOrigSize) : p.dts ≤ q.dts := by
  obtain ⟨hmedia, hmoved⟩ := front_moved h hc hbegun
  have hbefore := h.spaced.before
  rw [Core.timings, hc] at hbefore
  dsimp only at hbefore
  rw [if_neg (by omega), List.map_cons] at hbefore
  have hnext := List.rel_of_pairwise_cons hbefore List.mem_cons_self hmedia
  exact hmoved.after.trans hnext

/-! ## All queues -/

def TSMultiplexer.cores (s : TSMultiplexer) (i : ℤ) : Option Core := s.mMux[i]?.map core

/-- What a step makes of the queue: nothing but note its size, or data leave and the DTS moves. -/
inductive Worked (c : Core) : Core → Prop
  | idle : Worked c c.started
  | sent (p : MediaPacket) (rest : List MediaPacket) (n : ℕ) (hc : c.vQueue = p::rest) (hn : n ≤ 184)
      (hsize : n ≤ p.size) (hbegun : c.started.iOrigSize ≠ 0) :
      Worked c (c.started.sent n (int32 (p.dts+(int32 (n*p.inc)).tdiv c.started.iOrigSize)))

variable {s t u : TSMultiplexer} {iStream : ℤ} {pMux : Muxx} {pPckt : MediaPacket}

theorem front_core (h : s.front iStream = .ok (pMux, pPckt)) :
    s.cores iStream = some (core pMux) ∧ ∃ rest, (core pMux).vQueue = pPckt::rest := by
  rw [TSMultiplexer.front] at h
  rw [TSMultiplexer.cores]
  cases hentry : s.mMux[iStream]? with
  | none =>
    rw [hentry] at h
    cases h
  | some pMux' =>
    rw [hentry] at h
    dsimp only at h
    split at h
    · cases h
    · rename_i hqueue
      cases h
      exact ⟨rfl, _, hqueue⟩

theorem modified_cores {f : Muxx → Muxx} {c c' : Core} (hc : s.cores iStream = some c)
    (hf : ∀ pMux, core pMux = c → core (f pMux) = c') :
    (s.modified iStream f).cores = Function.update s.cores iStream (some c') := by
  ext1 j
  rw [TSMultiplexer.cores] at hc
  show (s.mMux.modify iStream f)[j]?.map core = _
  rw [TreeMap.getElem?_modify, Function.update_apply]
  by_cases hij : iStream = j
  · subst hij
    rw [if_pos (by simp), if_pos rfl]
    obtain ⟨pMux, hentry, hcore⟩ := Option.map_eq_some_iff.1 hc
    rw [hentry]
    exact congrArg some (hf pMux hcore)
  · rw [if_neg (by simpa using hij), if_neg (Ne.symm hij)]
    rfl

theorem detected_core (pMux : Muxx) : core (detected pMux) = core pMux := by
  rw [detected]
  split
  · rfl
  · split_ifs <;> rfl

/-- Only data that are sent change a queue. -/
theorem taken_cores {iType : TSType} (hkind : iType ≠ .PES) (s : TSMultiplexer) (iStream : ℤ) (n : ℕ)
    (pPckt : MediaPacket) : (s.taken iType iStream n pPckt).cores = s.cores := by
  cases iType with
  | PES => exact absurd rfl hkind
  | PMT =>
    ext1 j
    show (s.mMux.map fun _ pMux => detected pMux)[j]?.map core = _
    rw [TreeMap.getElem?_map, Option.map_map, TSMultiplexer.cores]
    congr 1
    funext pMux
    exact detected_core pMux
  | SDT => rfl
  | PAT => rfl
  | PCR => rfl
  | FILL => rfl

theorem appended_cores (s : TSMultiplexer) (r : Created) : (s.appended r).cores = s.cores := rfl

theorem created_cores {iType : TSType} {bStart bPCR : Bool} {n : ℕ} (hkind : iType ≠ .PES)
    (h : s.createTSPacket iStream iType bStart bPCR = .ok (n, t)) : t.cores = s.cores := by
  obtain ⟨_, pPckt, _, _, _, _, _, _, _, _, _, rfl⟩ := created_cases h
  rw [appended_cores, taken_cores hkind]

theorem createSDT_cores (h : s.createSDT iStream = .ok t) : t.cores = s.cores := by
  rw [TSMultiplexer.createSDT] at h
  by_cases hdue : s.SI.SDT.count = 1
  · rw [if_pos hdue] at h
    obtain ⟨⟨n, u⟩, hcreate, rfl⟩ := map_ok.1 h
    exact created_cores (by decide) hcreate
  · rw [if_neg hdue] at h
    cases h
    rfl

theorem createPAT_cores (h : s.createPAT iStream = .ok t) : t.cores = s.cores := by
  rw [TSMultiplexer.createPAT] at h
  by_cases hdue : s.SI.PAT.count = 1
  · rw [if_pos hdue] at h
    obtain ⟨⟨n, u⟩, hcreate, h⟩ := bind_ok.1 h
    obtain ⟨⟨m, v⟩, hcreate', rfl⟩ := map_ok.1 h
    exact (created_cores (by decide) hcreate').trans (created_cores (by decide) hcreate)
  · rw [if_neg hdue] at h
    cases h
    rfl

theorem begun_cores (h : s.front iStream = .ok (pMux, pPckt)) :
    (s.begun iStream pMux pPckt).cores =
      Function.update s.cores iStream (some (core pMux).started) := by
  obtain ⟨hcore, rest, hqueue⟩ := front_core h
  show (s.modified iStream (started pPckt)).cores = _
  apply modified_cores hcore
  intro pMux' hsame
  rw [← hsame, Core.started, hsame, hqueue, ← hsame]
  dsimp only
  rw [started, isFresh]
  show core (if decide (pMux'.iOrigSize < 0) = true then _ else pMux') =
    if pMux'.iOrigSize < 0 then _ else core pMux'
  by_cases hfresh : pMux'.iOrigSize < 0
  · rw [if_pos (decide_eq_true hfresh), if_pos hfresh]
    have hq : pMux'.vQueue = pPckt::rest := (congrArg Core.vQueue hsame).trans hqueue
    show (⟨pMux'.vQueue, pPckt.size, pPckt.dts⟩ : Core) = _
    rw [hq]
  · rw [if_neg (by simpa using hfresh), if_neg hfresh]

theorem advanced_cores {n : ℕ} {c : Core} {p : MediaPacket} {rest : List MediaPacket}
    (hc : s.cores iStream = some c) (hqueue : c.vQueue = p::rest) (h : s.advanced iStream n = .ok t) :
    c.iOrigSize ≠ 0 ∧ t.cores = Function.update s.cores iStream
      (some { c with vQueue := { p with dts := int32 (p.dts+(int32 (n*p.inc)).tdiv c.iOrigSize) }::rest }) := by
  rw [TSMultiplexer.advanced] at h
  obtain ⟨⟨pMux, pPckt⟩, hfront, h⟩ := bind_ok.1 h
  obtain ⟨hcore, rest', hqueue'⟩ := front_core hfront
  rw [hc] at hcore
  obtain rfl := Option.some.inj hcore
  rw [hqueue] at hqueue'
  cases hqueue'
  dsimp only at h
  by_cases hzero : pMux.iOrigSize = 0
  · rw [if_pos hzero] at h
    cases h
  · rw [if_neg hzero] at h
    cases h
    refine ⟨hzero, ?_⟩
    apply modified_cores hc
    intro pMux' hsame
    have hq : pMux'.vQueue = p::rest := (congrArg Core.vQueue hsame).trans hqueue
    have hsize : pMux'.iOrigSize = pMux.iOrigSize := congrArg Core.iOrigSize hsame
    have hdts : pMux'.iOrigDTS = pMux.iOrigDTS := congrArg Core.iOrigDTS hsame
    show (⟨_::pMux'.vQueue.tail, pMux'.iOrigSize, pMux'.iOrigDTS⟩ : Core) = _
    rw [hq, hsize, hdts]
    rfl

theorem depleted_cores {b : Bool} {c : Core} (hc : s.cores iStream = some c)
    (h : s.depleted iStream = .ok (b, t)) :
    b = false ∧ t.cores = Function.update s.cores iStream (some c.popped) ∨ b = true ∧ t.cores = s.cores := by
  rw [TSMultiplexer.depleted] at h
  obtain ⟨front, -, h⟩ := bind_ok.1 h
  by_cases hempty : front.2.size = 0
  · rw [if_pos hempty] at h
    cases h
    refine Or.inl ⟨rfl, ?_⟩
    apply modified_cores hc
    intro pMux hsame
    rw [← hsame]
    rfl
  · rw [if_neg hempty] at h
    cases h
    exact Or.inr ⟨rfl, rfl⟩

theorem payload_bounds (SI : SITable) (pPckt : MediaPacket) (bPCR bRandom : Bool) :
    payloadSize SI .PES pPckt bPCR bRandom ≤ 184 ∧ payloadSize SI .PES pPckt bPCR bRandom ≤ pPckt.size := by
  rw [payloadSize, if_neg (by simp)]
  split_ifs <;> omega

/-- A packet with data takes them off the front. -/
theorem created_data {c : Core} {bStart bPCR : Bool} {n : ℕ} (hc : s.cores iStream = some c)
    (h : s.createTSPacket iStream .PES bStart bPCR = .ok (n, u)) : ∃ p rest, c.vQueue = p::rest ∧
      n = payloadSize s.SI .PES p bPCR
        (decide (TSType.PES = .PES ∧ bStart ∧ p.key ∧ p.content = .video)) ∧
      u.cores = Function.update s.cores iStream (some { c with vQueue := p.popped n::rest }) := by
  obtain ⟨pMux, p, _, _, _, hfront, hn, _, _, _, _, rfl⟩ := created_cases h
  obtain ⟨hcore, rest, hqueue⟩ := front_core hfront
  rw [hc] at hcore
  obtain rfl := Option.some.inj hcore
  refine ⟨p, rest, hqueue, hn, ?_⟩
  apply modified_cores hc
  intro pMux' hsame
  have hq : pMux'.vQueue = p::rest := (congrArg Core.vQueue hsame).trans hqueue
  show (⟨_::pMux'.vQueue.tail, pMux'.iOrigSize, pMux'.iOrigDTS⟩ : Core) = _
  rw [hq, ← hsame]
  rfl

/-- The bytes leave first, then the DTS moves. -/
theorem data_cores {c : Core} {bStart bPCR : Bool} {n : ℕ} (hc : s.cores iStream = some c.started)
    (hcreate : s.createTSPacket iStream .PES bStart bPCR = .ok (n, u)) (h : u.advanced iStream n = .ok t) :
    ∃ p rest, c.vQueue = p::rest ∧ c.started.iOrigSize ≠ 0 ∧
      n = payloadSize s.SI .PES p bPCR
        (decide (TSType.PES = .PES ∧ bStart ∧ p.key ∧ p.content = .video)) ∧
      t.cores = Function.update s.cores iStream
        (some (c.started.sent n (int32 (p.dts+(int32 (n*p.inc)).tdiv c.started.iOrigSize)))) := by
  obtain ⟨p, rest, hqueue, hn, hu⟩ := created_data hc hcreate
  have huc : u.cores iStream = some { c.started with vQueue := p.popped n::rest } := by
    rw [hu, Function.update_self]
  obtain ⟨hbegun, ht⟩ := advanced_cores huc rfl h
  rw [started_queue] at hqueue
  refine ⟨p, rest, hqueue, hbegun, hn, ?_⟩
  rw [ht, hu, Function.update_idem, Core.sent, started_queue, hqueue]
  rfl

/-- A packet with data, or one without. -/
theorem createMedia_cores {c : Core} {bStart bPCR : Bool} {q : MediaPacket}
    (hc : s.cores iStream = some c.started) (h : s.createMedia iStream q bStart bPCR = .ok t) :
    ∃ c', Worked c c' ∧ t.cores = Function.update s.cores iStream (some c') := by
  have hsame : s.cores = Function.update s.cores iStream (some c.started) := by
    rw [← hc, Function.update_eq_self]
  rw [TSMultiplexer.createMedia] at h
  by_cases hahead : s.ahead q = true
  · rw [if_pos hahead] at h
    refine ⟨c.started, Worked.idle, ?_⟩
    cases bPCR with
    | true =>
      obtain ⟨⟨n, u⟩, hcreate, rfl⟩ := map_ok.1 h
      exact (created_cores (by decide) hcreate).trans hsame
    | false =>
      obtain ⟨⟨n, u⟩, hcreate, rfl⟩ := map_ok.1 h
      exact (created_cores (by decide) hcreate).trans hsame
  · rw [if_neg hahead] at h
    obtain ⟨⟨n, u⟩, hcreate, h⟩ := bind_ok.1 h
    obtain ⟨p, rest, hqueue, hbegun, hn, ht⟩ := data_cores hc hcreate h
    obtain ⟨hsmall, hsize⟩ := payload_bounds s.SI p bPCR
      (decide (TSType.PES = .PES ∧ bStart ∧ p.key ∧ p.content = .video))
    rw [← hn] at hsmall hsize
    exact ⟨_, Worked.sent p rest n hqueue hsmall hsize hbegun, ht⟩

/-- What a step does to the queues. -/
theorem step_cores {b : Bool} (h : s.step iStream = .ok (b, t)) : ∃ c c', s.cores iStream = some c ∧
    Worked c c' ∧ (b = true ∧ t.cores = Function.update s.cores iStream (some c') ∨
      b = false ∧ t.cores = Function.update s.cores iStream (some c'.popped)) := by
  rw [TSMultiplexer.step] at h
  obtain ⟨⟨pMux, pPckt⟩, hfront, h⟩ := bind_ok.1 h
  obtain ⟨u, hsdt, h⟩ := bind_ok.1 h
  obtain ⟨v, hpat, h⟩ := bind_ok.1 h
  obtain ⟨w, hmedia, hend⟩ := bind_ok.1 h
  have hv : v.cores = Function.update s.cores iStream (some (core pMux).started) :=
    (createPAT_cores hpat).trans ((createSDT_cores hsdt).trans (begun_cores hfront))
  obtain ⟨c', hworked, hw⟩ := createMedia_cores (by rw [hv, Function.update_self]) hmedia
  rw [hv, Function.update_idem] at hw
  refine ⟨core pMux, c', (front_core hfront).1, hworked, ?_⟩
  rcases depleted_cores (by rw [hw, Function.update_self]) hend with ⟨hb, ht⟩ | ⟨hb, ht⟩
  · right
    rw [ht, hw, Function.update_idem]
    exact ⟨hb, rfl⟩
  · left
    rw [ht, hw]
    exact ⟨hb, rfl⟩

/-! ## What a step keeps -/

def TSMultiplexer.timings (s : TSMultiplexer) (i : ℤ) : List Timing :=
  match s.cores i with
  | none => []
  | some c => c.timings

/-- Packets only leave the queues. -/
def Shrinks (s t : TSMultiplexer) : Prop := ∀ i, t.timings i <:+ s.timings i

/-- Every packet of media that comes next, and the one of stream `L` in any case, is due from `B` on. -/
structure Holding (lo hi B L : ℤ) (s : TSMultiplexer) : Prop where
  present : ∃ c, s.cores L = some c
  steady : ∀ i c, s.cores i = some c → Steady lo hi c
  above : ∀ i c front rest, s.cores i = some c → c.vQueue = front::rest →
    front.type = .media ∨ i = L → B ≤ front.dts

def MediaFront (s : TSMultiplexer) (i : ℤ) : Prop :=
  ∃ c front rest, s.cores i = some c ∧ c.vQueue = front::rest ∧ front.type = .media

variable {B L : ℤ}

theorem shrinks_trans (h : Shrinks s t) (h' : Shrinks t u) : Shrinks s u :=
  fun i => (h' i).trans (h i)

theorem timings_some {i : ℤ} (hc : s.cores i = some c) : s.timings i = c.timings := by
  rw [TSMultiplexer.timings, hc]

theorem shrinks_update {c' : Core} {i : ℤ} (hc : s.cores i = some c) (hsuffix : c'.timings <:+ c.timings)
    (h : t.cores = Function.update s.cores i (some c')) : Shrinks s t := by
  intro j
  rw [TSMultiplexer.timings, h, Function.update_apply]
  by_cases hij : j = i
  · rw [if_pos hij, hij, timings_some hc]
    exact hsuffix
  · rw [if_neg hij]
    exact List.suffix_rfl

theorem holding_update {c' : Core} {i : ℤ} (hs : Holding lo hi B L s)
    (h : t.cores = Function.update s.cores i (some c')) (hsteady : Steady lo hi c')
    (habove : ∀ front rest, c'.vQueue = front::rest → B ≤ front.dts) : Holding lo hi B L t := by
  constructor
  · rw [h, Function.update_apply]
    split_ifs
    · exact ⟨c', rfl⟩
    · exact hs.present
  · intro j d hd
    rw [h, Function.update_apply] at hd
    split_ifs at hd
    · cases hd
      exact hsteady
    · exact hs.steady j d hd
  · intro j d front rest hd hqueue hkind
    rw [h, Function.update_apply] at hd
    split_ifs at hd
    · cases hd
      exact habove front rest hqueue
    · exact hs.above j d front rest hd hqueue hkind

/-- The front that a step works on stays there, and its DTS does not fall. -/
theorem worked_steady {c' : Core} (h : Steady lo hi c) (hlo : -2^31 ≤ lo) (hhi : hi ≤ 2^31)
    (hc : c.vQueue = p::rest) (hmedia : p.type = .media) (hw : Worked c c') :
    Steady lo hi c' ∧ c'.timings = c.timings ∧ 0 ≤ c'.iOrigSize ∧
      ∃ p', c'.vQueue = p'::rest ∧ p'.type = .media ∧ p.dts ≤ p'.dts := by
  have hstarted := started_steady h hc hmedia
  have hbegun := started_begun hc
  have hqueue : c.started.vQueue = p::rest := (started_queue c).trans hc
  cases hw with
  | idle => exact ⟨hstarted, started_timings c, hbegun, p, hqueue, hmedia, le_refl _⟩
  | sent q rest' n hc' hn hsize hne =>
    rw [hc] at hc'
    cases hc'
    obtain ⟨hgrows, hsteady⟩ := sent_steady hstarted hlo hhi hqueue hmedia (by omega) hn hsize
    refine ⟨hsteady, (sent_timings hbegun).trans (started_timings c), ?_⟩
    rw [Core.sent, hqueue]
    exact ⟨hbegun, _, rfl, hmedia, hgrows⟩

theorem step_holding {b : Bool} (hs : Holding lo hi B L s) (hlo : -2^31 ≤ lo) (hhi : hi ≤ 2^31)
    (hmedia : MediaFront s iStream) (h : s.step iStream = .ok (b, t)) :
    Holding lo hi B L t ∧ Shrinks s t ∧ (b = true → MediaFront t iStream) := by
  obtain ⟨c, c', hc, hworked, hend⟩ := step_cores h
  obtain ⟨d, p, rest, hd, hqueue, hmedia⟩ := hmedia
  rw [hc] at hd
  cases hd
  have hB : B ≤ p.dts := hs.above iStream c p rest hc hqueue (Or.inl hmedia)
  obtain ⟨hsteady, htimings, hbegun, p', hqueue', hmedia', hgrows⟩ :=
    worked_steady (hs.steady iStream c hc) hlo hhi hqueue hmedia hworked
  rcases hend with ⟨-, ht⟩ | ⟨hb, ht⟩
  · refine ⟨holding_update hs ht hsteady ?_, shrinks_update hc ?_ ht, ?_⟩
    · intro front rest' hfront
      rw [hqueue'] at hfront
      cases hfront
      omega
    · rw [htimings]
    · intro _
      exact ⟨c', p', rest, by rw [ht, Function.update_self], hqueue', hmedia'⟩
  · refine ⟨holding_update hs ht (popped_steady hsteady) ?_, shrinks_update hc ?_ ht, ?_⟩
    · intro front rest' hfront
      have hnext : c'.vQueue = p'::front::rest' := by
        rw [Core.popped, hqueue'] at hfront
        rw [hqueue', show rest = front::rest' from hfront]
      have hpopped := popped_grows hsteady hnext hbegun
      omega
    · rw [popped_timings, htimings]
      exact List.tail_suffix _
    · intro htrue
      rw [hb] at htrue
      cases htrue

theorem steps_holding {fuel : ℕ} (hs : Holding lo hi B L s) (hlo : -2^31 ≤ lo) (hhi : hi ≤ 2^31)
    (hmedia : MediaFront s iStream) (h : TSMultiplexer.steps iStream fuel s = .ok t) :
    Holding lo hi B L t ∧ Shrinks s t := by
  induction fuel generalizing s with
  | zero => cases h
  | succ fuel ih =>
    rw [TSMultiplexer.steps] at h
    obtain ⟨⟨b, u⟩, hstep, h⟩ := bind_ok.1 h
    obtain ⟨hu, hshrinks, hfront⟩ := step_holding hs hlo hhi hmedia hstep
    by_cases hmore : b = true ∧ ¬s.bInterleave = true
    · rw [if_pos hmore] at h
      obtain ⟨ht, hmoreshrinks⟩ := ih hu (hfront hmore.1) h
      exact ⟨ht, shrinks_trans hshrinks hmoreshrinks⟩
    · rw [if_neg hmore] at h
      cases h
      exact ⟨hu, hshrinks⟩

end Sirannon.TSMultiplexing
