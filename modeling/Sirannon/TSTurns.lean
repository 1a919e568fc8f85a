import Sirannon.TSQueueTiming

/-!
# Turns of one queue

A turn takes data of the packet at the front of one queue, or with no
interleaving the whole packet. From the queue of the reference stream alone one
sees the DTS at which it ends a pass, and from another queue alone if it is
empty by then.
-/

set_option autoImplicit false

namespace Sirannon.TSMultiplexing
open Bits Media MachineInt Multiplexing
open Std (TreeMap)

/-- The room for data in a transport packet: less beside the flag of a key frame, and beside the
clock, which only the local reference stream carries. -/
def Room (bLocal : Bool) (p : MediaPacket) (m : ℕ) : Prop :=
  m = 184 ∨ m = 184-2 ∧ p.key = true ∧ p.content = .video ∨ m = 184-8 ∧ bLocal = true

/-- `n` bytes of the front `p` are sent, and its DTS moves on with them. -/
def Core.took (c : Core) (p : MediaPacket) (n : ℕ) : Core :=
  c.started.sent n (int32 (p.dts+(int32 (n*p.inc)).tdiv c.started.iOrigSize))

/-- Some of the front is taken and its DTS moves, or the last of it and the next one is fresh. -/
inductive Turn (bInterleave bLocal : Bool) (c : Core) : Core → Prop
  | part (p : MediaPacket) (rest : List MediaPacket) (m : ℕ) (hinterleave : bInterleave = true)
      (hc : c.vQueue = p::rest) (hroom : Room bLocal p m) (hless : m < p.size)
      (hbegun : c.started.iOrigSize ≠ 0) :
      Turn bInterleave bLocal c (c.took p m)
  | last (p : MediaPacket) (c' : Core) (hc : c.vQueue = p::c'.vQueue)
      (hsmall : bInterleave = true → p.size ≤ 184) (hfresh : c'.iOrigSize = -1) :
      Turn bInterleave bLocal c c'

/-- Turns while the front is a packet of media, each at a DTS of `P`. -/
inductive Path (bInterleave bLocal : Bool) (P : ℤ → Prop) : Core → Core → Prop
  | refl (c : Core) : Path bInterleave bLocal P c c
  | turn {c c' c'' : Core} (p : MediaPacket) (rest : List MediaPacket) (hc : c.vQueue = p::rest)
      (hmedia : p.type = .media) (hdts : P p.dts) (hturn : Turn bInterleave bLocal c c')
      (hpath : Path bInterleave bLocal P c' c'') : Path bInterleave bLocal P c c''

/-- The queue of the reference stream can get to `T`, the end of the pass, at the DTS `x`. -/
def Stops (bInterleave : Bool) (T : ℤ) (c : Core) (x : ℤ) : Prop :=
  ∃ c' p rest, Path bInterleave true (· < T) c c' ∧ c'.vQueue = p::rest ∧ p.type = .media ∧
    T ≤ p.dts ∧ p.dts = x

/-- The queue can be emptied by turns at DTS of `P`. -/
def Drains (bInterleave : Bool) (P : ℤ → Prop) (c : Core) : Prop :=
  ∃ c', Path bInterleave false P c c' ∧ c'.vQueue = []

/-- Data of stream `i` at the DTS `y` go before those of stream `L` at `x`. -/
def Due (L x i y : ℤ) : Prop := y < x ∨ y = x ∧ i < L

variable {c c' : Core} {p : MediaPacket} {rest : List MediaPacket} {bInterleave bLocal : Bool}
  {T x : ℤ} {P : ℤ → Prop}

/-! ## Turns -/

theorem started_started (c : Core) : c.started.started = c.started := by
  cases hc : c.vQueue with
  | nil =>
    have hsame : c.started = c := by rw [Core.started, hc]
    rw [hsame, hsame]
  | cons p rest =>
    have hbegun := started_begun hc
    rw [Core.started, started_queue, hc]
    dsimp only
    rw [if_neg (by omega)]

theorem took_started (c : Core) (p : MediaPacket) (n : ℕ) : c.started.took p n = c.took p n := by
  rw [Core.took, started_started, Core.took]

/-- What is left of the front keeps its type. -/
theorem took_queue (hc : c.vQueue = p::rest) (n : ℕ) :
    ∃ q, (c.took p n).vQueue = q::rest ∧ q.size = p.size-n ∧ q.type = p.type := by
  rw [Core.took, Core.sent, started_queue, hc]
  refine ⟨_, rfl, ?_, rfl⟩
  show (p.bytes.drop n).length = p.bytes.length-n
  rw [List.length_drop]

theorem turn_started (h : Turn bInterleave bLocal c.started c') : Turn bInterleave bLocal c c' := by
  cases h with
  | part p rest m hinterleave hc hroom hless hbegun =>
    rw [took_started]
    rw [started_started] at hbegun
    exact .part p rest m hinterleave ((started_queue c).symm.trans hc) hroom hless hbegun
  | last p c' hc hsmall hfresh => exact .last p c' ((started_queue c).symm.trans hc) hsmall hfresh

theorem path_started (h : Path bInterleave bLocal P c.started c') :
    Path bInterleave bLocal P c c' ∨ c' = c.started := by
  cases h with
  | refl => exact Or.inr rfl
  | turn p rest hc hmedia hdts hturn hpath =>
    left
    exact .turn p rest ((started_queue c).symm.trans hc) hmedia hdts (turn_started hturn) hpath

/-- What is behind the front stays in the queue. -/
theorem turn_rest (h : Turn bInterleave bLocal c c') (hc : c.vQueue = p::rest) {q : MediaPacket}
    (hq : q ∈ rest) : q ∈ c'.vQueue := by
  cases h with
  | part p' rest' m hinterleave hc' hroom hless hbegun =>
    rw [hc'] at hc
    cases hc
    obtain ⟨q', hqueue, -⟩ := took_queue hc' m
    rw [hqueue]
    exact List.mem_cons_of_mem _ hq
  | last p' c' hc' hsmall hfresh =>
    rw [hc'] at hc
    cases hc
    exact hq

/-! ## The ends of a queue -/

theorem stops_here (hc : c.vQueue = p::rest) (hmedia : p.type = .media) (hT : T ≤ p.dts) :
    Stops bInterleave T c p.dts := ⟨c, p, rest, .refl c, hc, hmedia, hT, rfl⟩

theorem stops_started (h : Stops bInterleave T c.started x) : Stops bInterleave T c x := by
  obtain ⟨c', p, rest, hpath, hc, hstop⟩ := h
  rcases path_started hpath with hpath | rfl
  · exact ⟨c', p, rest, hpath, hc, hstop⟩
  · rw [started_queue] at hc
    exact ⟨c, p, rest, .refl c, hc, hstop⟩

theorem stops_turn (hc : c.vQueue = p::rest) (hmedia : p.type = .media) (hT : p.dts < T)
    (hturn : Turn bInterleave true c c') (h : Stops bInterleave T c' x) : Stops bInterleave T c x := by
  obtain ⟨c'', q, rest', hpath, hstop⟩ := h
  exact ⟨c'', q, rest', .turn p rest hc hmedia hT hturn hpath, hstop⟩

/-- The reference stream does not stop before its front. -/
theorem stops_from (hc : c.vQueue = p::rest) (h : Stops bInterleave T c x) : p.dts ≤ x := by
  obtain ⟨c', q, rest', hpath, hq, hmedia, hT, rfl⟩ := h
  cases hpath with
  | refl =>
    rw [hc] at hq
    cases hq
    exact le_refl _
  | turn p' rest'' hc' hmedia' hdts hturn hpath =>
    rw [hc] at hc'
    cases hc'
    exact (hdts.trans_le hT).le

theorem drains_started (h : Drains bInterleave P c.started) : Drains bInterleave P c := by
  obtain ⟨c', hpath, hempty⟩ := h
  rcases path_started hpath with hpath | rfl
  · exact ⟨c', hpath, hempty⟩
  · rw [started_queue] at hempty
    exact ⟨c, .refl c, hempty⟩

theorem drains_turn (hc : c.vQueue = p::rest) (hmedia : p.type = .media) (hdts : P p.dts)
    (hturn : Turn bInterleave false c c') (h : Drains bInterleave P c') : Drains bInterleave P c := by
  obtain ⟨c'', hpath, hempty⟩ := h
  exact ⟨c'', .turn p rest hc hmedia hdts hturn hpath, hempty⟩

/-- A queue is only emptied when all that waits in it is media and due. -/
theorem drains_due (h : Drains bInterleave P c) : ∀ q ∈ c.vQueue, q.type = .media ∧ P q.dts := by
  obtain ⟨c', hpath, hempty⟩ := h
  induction hpath with
  | refl c =>
    intro q hq
    rw [hempty] at hq
    cases hq
  | turn p rest hc hmedia hdts hturn hpath ih =>
    intro q hq
    rw [hc] at hq
    rcases List.mem_cons.1 hq with rfl | hq
    · exact ⟨hmedia, hdts⟩
    · exact ih hempty q (turn_rest hturn hc hq)

/-- Packets that fit into one transport packet are taken as a whole. -/
theorem stops_whole (hsmall : ∀ q ∈ c.vQueue, q.size ≤ 184-8) (h : Stops bInterleave T c x) :
    T ≤ x ∧ ∃ q ∈ c.vQueue, q.dts = x := by
  obtain ⟨c', p, rest, hpath, hc', hmedia, hT, rfl⟩ := h
  refine ⟨hT, ?_⟩
  induction hpath with
  | refl c =>
    rw [hc']
    exact ⟨p, List.mem_cons_self, rfl⟩
  | turn p' rest' hc hmedia' hdts hturn hpath ih =>
    cases hturn with
    | part p'' rest'' m hinterleave hc'' hroom hless hbegun =>
      have hsize := hsmall p'' (by rw [hc'']; exact List.mem_cons_self)
      rcases hroom with rfl | ⟨rfl, -⟩ | ⟨rfl, -⟩ <;> omega
    | last p'' c₁ hc'' hsmall' hfresh =>
      rw [hc''] at hsmall ⊢
      obtain ⟨q, hq, hx⟩ := ih (fun q hq => hsmall q (List.mem_cons_of_mem p'' hq)) hc'
      exact ⟨q, List.mem_cons_of_mem p'' hq, hx⟩

/-! ## Streams without gaps -/

/-- No packet of media lasts longer than `g`, and the next one starts no later than that. -/
structure Close (g : ℤ) (as : List Timing) : Prop where
  inc : ∀ a ∈ as, a.type = .media → a.inc ≤ g
  next : as.IsChain fun a b => a.type = .media → b.dts ≤ a.dts+g

variable {lo hi g U : ℤ}

theorem room_le {m : ℕ} (h : Room bLocal p m) : m ≤ 184 := by
  rcases h with rfl | ⟨rfl, -⟩ | ⟨rfl, -⟩ <;> decide

/-! ## Data of a queue -/

/-- Every byte counts, and every packet besides. -/
def Core.weight (c : Core) : ℕ := (c.vQueue.map fun p => p.size+1).sum

theorem started_weight (c : Core) : c.started.weight = c.weight := by
  rw [Core.weight, started_queue, Core.weight]

theorem room_pos {m : ℕ} (h : Room bLocal p m) : 0 < m := by
  rcases h with rfl | ⟨rfl, -⟩ | ⟨rfl, -⟩ <;> decide

theorem turn_weight (h : Turn bInterleave bLocal c c') : c'.weight < c.weight := by
  cases h with
  | part p rest m hinterleave hc hroom hless hbegun =>
    have hpos := room_pos hroom
    obtain ⟨q, hqueue, hsize, -⟩ := took_queue hc m
    rw [Core.weight, Core.weight, hqueue, hc, List.map_cons, List.map_cons, List.sum_cons,
      List.sum_cons, hsize]
    omega
  | last p c' hc hsmall hfresh =>
    rw [Core.weight, Core.weight, hc, List.map_cons, List.sum_cons]
    omega

/-! ## What a step does -/

/-- What a pass goes by and leaves alone. -/
structure Rules where
  iMuxRate : ℤ
  iPCRDelay : ℤ
  iShape : ℤ
  iDelay : ℤ
  bInterleave : Bool
  iLocalRefStream : ℤ

def TSMultiplexer.rules (s : TSMultiplexer) : Rules :=
  ⟨s.iMuxRate, s.iPCRDelay, s.iShape, s.iDelay, s.bInterleave, s.iLocalRefStream⟩

/-- The time of one transport packet. -/
def TSMultiplexer.tickTime (s : TSMultiplexer) : ℤ := (188*8*90000 : ℤ).tdiv s.iMuxRate

/-- The clock moved by `n` packets. -/
structure Clocks (s t : TSMultiplexer) (n : ℕ) : Prop where
  rules : t.rules = s.rules
  iPCR : t.iPCR % 2^32 = (s.iPCR+n*s.tickTime) % 2^32

variable {s t u : TSMultiplexer} {iStream : ℤ} {pMux : Muxx} {pPckt : MediaPacket}

theorem clocks_refl (s : TSMultiplexer) : Clocks s s 0 := ⟨rfl, by simp⟩

theorem clocks_trans {m n : ℕ} (h : Clocks s t m) (h' : Clocks t u n) : Clocks s u (m+n) := by
  have hrate : t.iMuxRate = s.iMuxRate := congrArg Rules.iMuxRate h.rules
  have htick : t.tickTime = s.tickTime := by rw [TSMultiplexer.tickTime, hrate, TSMultiplexer.tickTime]
  constructor
  · exact h'.rules.trans h.rules
  · have hn := h'.iPCR
    rw [htick] at hn
    rw [hn, Int.add_emod, h.iPCR, ← Int.add_emod]
    congr 1
    push_cast
    ring

theorem taken_rules (s : TSMultiplexer) (iType : TSType) (iStream : ℤ) (n : ℕ) (pPckt : MediaPacket) :
    (s.taken iType iStream n pPckt).rules = s.rules ∧ (s.taken iType iStream n pPckt).iPCR = s.iPCR := by
  cases iType with
  | SDT => exact ⟨rfl, rfl⟩
  | PAT => exact ⟨rfl, rfl⟩
  | PMT => exact ⟨rfl, rfl⟩
  | PCR => exact ⟨rfl, rfl⟩
  | FILL => exact ⟨rfl, rfl⟩
  | PES => exact ⟨rfl, rfl⟩

theorem created_clocks {iType : TSType} {bStart bPCR : Bool} {n : ℕ}
    (h : s.createTSPacket iStream iType bStart bPCR = .ok (n, t)) : Clocks s t 1 := by
  obtain ⟨_, pPckt, _, _, _, _, _, _, _, _, _, rfl⟩ := created_cases h
  obtain ⟨hrules, hPCR⟩ := taken_rules s iType iStream n pPckt
  have hrate : (s.taken iType iStream n pPckt).iMuxRate = s.iMuxRate := congrArg Rules.iMuxRate hrules
  constructor
  · exact hrules
  · show int32 ((s.taken iType iStream n pPckt).iPCR+
      (188*8*90000 : ℤ).tdiv (s.taken iType iStream n pPckt).iMuxRate) % 2^32 = _
    rw [int32_emod, hPCR, hrate, TSMultiplexer.tickTime, Nat.cast_one, one_mul]

theorem createSDT_clocks (h : s.createSDT iStream = .ok t) : ∃ n ≤ 1, Clocks s t n := by
  rw [TSMultiplexer.createSDT] at h
  by_cases hdue : s.SI.SDT.count = 1
  · rw [if_pos hdue] at h
    obtain ⟨⟨n, u⟩, hcreate, rfl⟩ := map_ok.1 h
    exact ⟨1, le_refl _, created_clocks hcreate⟩
  · rw [if_neg hdue] at h
    cases h
    exact ⟨0, by omega, clocks_refl s⟩

theorem createPAT_clocks (h : s.createPAT iStream = .ok t) : ∃ n ≤ 2, Clocks s t n := by
  rw [TSMultiplexer.createPAT] at h
  by_cases hdue : s.SI.PAT.count = 1
  · rw [if_pos hdue] at h
    obtain ⟨⟨n, u⟩, hcreate, h⟩ := bind_ok.1 h
    obtain ⟨⟨m, v⟩, hcreate', rfl⟩ := map_ok.1 h
    exact ⟨1+1, le_refl _, clocks_trans (created_clocks hcreate) (created_clocks hcreate')⟩
  · rw [if_neg hdue] at h
    cases h
    exact ⟨0, by omega, clocks_refl s⟩

theorem begun_clocks (s : TSMultiplexer) (iStream : ℤ) (pMux : Muxx) (pPckt : MediaPacket) :
    Clocks s (s.begun iStream pMux pPckt) 0 := ⟨rfl, by
  show s.iPCR % 2^32 = _
  simp⟩

/-- A packet without data: the stream was ahead of the clock when it was created. -/
def Idles (s t : TSMultiplexer) (p : MediaPacket) : Prop :=
  ∃ n ≤ 3, 1 < s.iMuxRate ∧ Clocks s t (n+1) ∧ ∃ x, x % 2^32 = (s.iPCR+n*s.tickTime) % 2^32 ∧
    s.iPCRDelay < int32 (p.dts-x)

/-- A step sends a packet without data, or data of the front, or the last of the front. -/
inductive Stepped (s t : TSMultiplexer) (bLocal : Bool) (c : Core) : Bool → Core → Prop
  | idle (p : MediaPacket) (rest : List MediaPacket) (hc : c.vQueue = p::rest) (hidle : Idles s t p) :
      Stepped s t bLocal c true c.started
  | part (p : MediaPacket) (rest : List MediaPacket) (m : ℕ) (hc : c.vQueue = p::rest)
      (hroom : Room bLocal p m) (hless : m < p.size) (hbegun : c.started.iOrigSize ≠ 0) :
      Stepped s t bLocal c true (c.took p m)
  | last (p : MediaPacket) (c' : Core) (hc : c.vQueue = p::c'.vQueue) (hsmall : p.size ≤ 184)
      (hfresh : c'.iOrigSize = -1) : Stepped s t bLocal c false c'

theorem payload_room (SI : SITable) (p : MediaPacket) (bStart : Bool) {bPCR bLocal : Bool}
    (hclock : bPCR = true → bLocal = true) : ∃ m, Room bLocal p m ∧ payloadSize SI .PES p bPCR
      (decide (TSType.PES = .PES ∧ bStart ∧ p.key ∧ p.content = .video)) = min p.size m := by
  rw [payloadSize, if_neg (by simp)]
  by_cases hPCR : bPCR = true
  · rw [if_pos hPCR]
    exact ⟨184-8, Or.inr (Or.inr ⟨rfl, hclock hPCR⟩), rfl⟩
  · rw [if_neg hPCR]
    split_ifs with hrandom
    · have hkey := of_decide_eq_true hrandom
      exact ⟨184-2, Or.inr (Or.inl ⟨rfl, hkey.2.2.1, hkey.2.2.2⟩), rfl⟩
    · exact ⟨184, Or.inl rfl, rfl⟩

theorem advanced_rules {n : ℕ} (h : s.advanced iStream n = .ok t) : t.rules = s.rules := by
  rw [TSMultiplexer.advanced] at h
  obtain ⟨front, -, h⟩ := bind_ok.1 h
  split_ifs at h
  cases h
  rfl

/-- A packet without data, when the stream is ahead, or data of the front. -/
theorem createMedia_turn {c : Core} {bStart bPCR : Bool} {q : MediaPacket} {bLocal : Bool}
    (hclock : bPCR = true → bLocal = true) (hc : s.cores iStream = some c.started)
    (h : s.createMedia iStream q bStart bPCR = .ok t) :
    (s.ahead q = true ∧ Clocks s t 1 ∧ t.cores = s.cores) ∨
      ∃ p rest m, c.vQueue = p::rest ∧ Room bLocal p m ∧ c.started.iOrigSize ≠ 0 ∧ t.rules = s.rules ∧
        t.cores = Function.update s.cores iStream (some (c.took p (min p.size m))) := by
  rw [TSMultiplexer.createMedia] at h
  by_cases hahead : s.ahead q = true
  · rw [if_pos hahead] at h
    left
    cases bPCR with
    | true =>
      obtain ⟨⟨n, u⟩, hcreate, rfl⟩ := map_ok.1 h
      exact ⟨hahead, created_clocks hcreate, created_cores (by decide) hcreate⟩
    | false =>
      obtain ⟨⟨n, u⟩, hcreate, rfl⟩ := map_ok.1 h
      exact ⟨hahead, created_clocks hcreate, created_cores (by decide) hcreate⟩
  · rw [if_neg hahead] at h
    right
    obtain ⟨⟨n, u⟩, hcreate, h⟩ := bind_ok.1 h
    obtain ⟨p, rest, hqueue, hbegun, hn, ht⟩ := data_cores hc hcreate h
    obtain ⟨m, hroom, hm⟩ := payload_room s.SI p bStart hclock
    rw [hm] at hn
    subst hn
    exact ⟨p, rest, m, hqueue, hroom, hbegun, (advanced_rules h).trans (created_clocks hcreate).rules, ht⟩

/-- The packet is taken away when it is depleted. -/
theorem depleted_turn {b : Bool} (hc : s.cores iStream = some c) (hqueue : c.vQueue = p::rest)
    (h : s.depleted iStream = .ok (b, t)) : t.rules = s.rules ∧ Clocks s t 0 ∧
      (p.size = 0 ∧ b = false ∧ t.cores = Function.update s.cores iStream (some c.popped) ∨
        p.size ≠ 0 ∧ b = true ∧ t.cores = s.cores) := by
  have hcores := depleted_cores hc h
  rw [TSMultiplexer.depleted] at h
  obtain ⟨⟨pMux, q⟩, hfront, h⟩ := bind_ok.1 h
  obtain ⟨hcore, rest', hq⟩ := front_core hfront
  rw [hc] at hcore
  obtain rfl := Option.some.inj hcore
  rw [hqueue] at hq
  cases hq
  dsimp only at h
  by_cases hempty : p.size = 0
  · rw [if_pos hempty] at h
    cases h
    refine ⟨rfl, ⟨rfl, by simp [TSMultiplexer.modified]⟩, Or.inl ⟨hempty, rfl, ?_⟩⟩
    rcases hcores with ⟨-, ht⟩ | ⟨hb, -⟩
    · exact ht
    · cases hb
  · rw [if_neg hempty] at h
    cases h
    exact ⟨rfl, clocks_refl s, Or.inr ⟨hempty, rfl, rfl⟩⟩

/-- What a step does to its queue, and what of the clock. -/
theorem step_stepped {b : Bool} (h : s.step iStream = .ok (b, t)) : ∃ c c', s.cores iStream = some c ∧
    t.cores = Function.update s.cores iStream (some c') ∧ t.rules = s.rules ∧
      Stepped s t (decide (iStream = s.iLocalRefStream)) c b c' := by
  rw [TSMultiplexer.step] at h
  obtain ⟨⟨pMux, pPckt⟩, hfront, h⟩ := bind_ok.1 h
  obtain ⟨u, hsdt, h⟩ := bind_ok.1 h
  obtain ⟨v, hpat, h⟩ := bind_ok.1 h
  obtain ⟨w, hmedia, hend⟩ := bind_ok.1 h
  dsimp only at hmedia
  obtain ⟨hcore, rest, hqueue⟩ := front_core hfront
  obtain ⟨m, hm, hu⟩ := createSDT_clocks hsdt
  obtain ⟨n, hn, hv'⟩ := createPAT_clocks hpat
  have hclocks := clocks_trans (begun_clocks s iStream pMux pPckt) (clocks_trans hu hv')
  have hv : v.cores = Function.update s.cores iStream (some (core pMux).started) :=
    (createPAT_cores hpat).trans ((createSDT_cores hsdt).trans (begun_cores hfront))
  have hvc : v.cores iStream = some (core pMux).started := by rw [hv, Function.update_self]
  have hclock : s.duePCR iStream (isFresh pMux) = true → decide (iStream = s.iLocalRefStream) = true := by
    intro hdue
    rw [TSMultiplexer.duePCR] at hdue
    exact decide_eq_true (of_decide_eq_true hdue).1
  refine ⟨core pMux, ?_⟩
  rcases createMedia_turn hclock hvc hmedia with ⟨hahead, hw, hcores⟩ | ⟨p, rest', m, hq, hroom, hbegun, hrules, hcores⟩
  · -- Nothing of the front was sent.
    have hwc : w.cores iStream = some (core pMux).started := by rw [hcores, hvc]
    have hq : (core pMux).started.vQueue = pPckt::rest := (started_queue _).trans hqueue
    obtain ⟨hrules, hclocks', hcase⟩ := depleted_turn hwc hq hend
    have hsame : t.rules = s.rules := hrules.trans (hw.rules.trans hclocks.rules)
    rcases hcase with ⟨hempty, rfl, ht⟩ | ⟨hfull, rfl, ht⟩
    · refine ⟨(core pMux).started.popped, hcore, ?_, hsame, ?_⟩
      · rw [ht, hcores, hv, Function.update_idem]
      · apply Stepped.last pPckt
        · rw [Core.popped, started_queue, hqueue]
          rfl
        · omega
        · rfl
    · refine ⟨(core pMux).started, hcore, ?_, hsame, ?_⟩
      · rw [ht, hcores, hv]
      · apply Stepped.idle pPckt rest hqueue
        rw [TSMultiplexer.ahead] at hahead
        obtain ⟨hrate, hfar⟩ := of_decide_eq_true hahead
        have hall := clocks_trans hclocks (clocks_trans hw hclocks')
        have hvrate : v.iMuxRate = s.iMuxRate := congrArg Rules.iMuxRate hclocks.rules
        have hvdelay : v.iPCRDelay = s.iPCRDelay := congrArg Rules.iPCRDelay hclocks.rules
        rw [hvrate] at hrate
        rw [hvdelay] at hfar
        refine ⟨0+(m+n), by omega, hrate, ?_, v.iPCR, hclocks.iPCR, hfar⟩
        exact hall
  · -- Data were sent, and what is left of the front stays.
    rw [hqueue] at hq
    cases hq
    obtain ⟨q, hsent, hsize, -⟩ := took_queue hqueue (min pPckt.size m)
    have hwc : w.cores iStream = some ((core pMux).took pPckt (min pPckt.size m)) := by
      rw [hcores, Function.update_self]
    obtain ⟨hrules', -, hcase⟩ := depleted_turn hwc hsent hend
    have hsame : t.rules = s.rules := hrules'.trans (hrules.trans hclocks.rules)
    have hm := room_le hroom
    rcases hcase with ⟨hempty, rfl, ht⟩ | ⟨hfull, rfl, ht⟩
    · refine ⟨_, hcore, by rw [ht, hcores, hv, Function.update_idem, Function.update_idem], hsame, ?_⟩
      apply Stepped.last pPckt
      · rw [Core.popped, hsent, hqueue]
        rfl
      · omega
      · rfl
    · have hmin : min pPckt.size m = m := by omega
      rw [hmin] at hcores
      refine ⟨_, hcore, by rw [ht, hcores, hv, Function.update_idem], hsame, ?_⟩
      exact Stepped.part pPckt rest m hqueue hroom (by omega) hbegun

end Sirannon.TSMultiplexing
