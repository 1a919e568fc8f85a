import Sirannon.TSPassTiming
import Sirannon.TSTurns

/-!
# The end of a pass

As long as no queue is empty a pass ends: with every turn data leave the queues,
or the clock catches up. More fuel than it needs changes nothing.
-/

set_option autoImplicit false

namespace Sirannon.TSMultiplexing
open Bits Media MachineInt Multiplexing
open Std (TreeMap)

/-! ## Errors -/

/-- The errors of a queue that is empty. -/
def Dry (e : SirannonException) : Prop :=
  e = runtimeError "queue should not be empty at this point!" ∨
    e = runtimeError "empty queue while constructing PMT" ∨
    e = undefinedBehaviour "front of an empty queue"

instance decidableDry (e : SirannonException) : Decidable (Dry e) :=
  inferInstanceAs (Decidable (e = _ ∨ e = _ ∨ e = _))

/-- A result other than that of an empty queue, and of a loop that goes on. -/
def Ends {α : Type} (r : Except SirannonException α) : Prop :=
  ∀ e, r = .error e → ¬Dry e ∧ e ≠ outOfFuel

variable {α β : Type} {s t u : TSMultiplexer} {iStream : ℤ}

theorem ends_ok (a : α) : Ends (.ok a : Except SirannonException α) := fun _ h => by cases h

theorem ends_error {e : SirannonException} (h : ¬Dry e ∧ e ≠ outOfFuel) :
    Ends (.error e : Except SirannonException α) := by
  intro e' he
  cases he
  exact h

theorem ends_bind {x : Except SirannonException α} {f : α → Except SirannonException β} (hx : Ends x)
    (hf : ∀ a, x = .ok a → Ends (f a)) : Ends (x >>= f) := by
  cases x with
  | error e => exact ends_error (hx e rfl)
  | ok a => exact hf a rfl

theorem ends_map {x : Except SirannonException α} {f : α → β} (hx : Ends x) : Ends (x.map f) := by
  cases x with
  | error e => exact ends_error (hx e rfl)
  | ok a => exact ends_ok (f a)

theorem front_differs {a b : String} {c d : Char} (x y : String) (ha : a.toList.head? = some c)
    (hb : b.toList.head? = some d) (hne : c ≠ d) : a ++ x ≠ b ++ y := by
  intro heq
  have hlist : (a ++ x).toList.head? = (b ++ y).toList.head? := by rw [heq]
  rw [String.toList_append, String.toList_append, List.head?_append, List.head?_append, ha, hb] at hlist
  exact hne (Option.some.inj hlist)

theorem not_dry_bounds (sError : String) :
    ¬Dry (outOfBoundsError sError) ∧ outOfBoundsError sError ≠ outOfFuel := by
  have hruntime : ∀ y, outOfBoundsError sError ≠ runtimeError y := fun y h =>
    front_differs (c := 'O') (d := 'R') sError y (by decide) (by decide) (by decide)
      (congrArg SirannonException.what h)
  have hundefined : ∀ y, outOfBoundsError sError ≠ undefinedBehaviour y := fun y h =>
    front_differs (c := 'O') (d := 'u') sError y (by decide) (by decide) (by decide)
      (congrArg SirannonException.what h)
  constructor
  · rintro (h | h | h)
    · exact hruntime _ h
    · exact hruntime _ h
    · exact hundefined _ h
  · exact hundefined _

theorem not_dry_size (n : ℕ) : ¬Dry (runtimeError s!"transport stream packet size({n}) != 188") ∧
    runtimeError s!"transport stream packet size({n}) != 188" ≠ outOfFuel := by
  have hundefined : ∀ x y, runtimeError x ≠ undefinedBehaviour y := fun x y h =>
    front_differs (c := 'R') (d := 'u') x y (by decide) (by decide) (by decide)
      (congrArg SirannonException.what h)
  have hruntime : ∀ y d, y.toList.head? = some d → d ≠ 't' →
      runtimeError s!"transport stream packet size({n}) != 188" ≠ runtimeError y := by
    intro y d hd hne h
    have hlist := congrArg (fun e : SirannonException => e.what.toList) h
    change ("RuntimeError: " ++ _).toList = ("RuntimeError: " ++ y).toList at hlist
    have happend : ∀ z : String, ("RuntimeError: " ++ z).toList = "RuntimeError: ".toList ++ z.toList :=
      fun z => String.toList_append
    rw [happend, happend] at hlist
    have hhead := congrArg List.head? (List.append_cancel_left hlist)
    simp only [toString] at hhead
    rw [String.toList_append, String.toList_append, List.head?_append, List.head?_append, hd,
      show "transport stream packet size(".toList.head? = some 't' by decide] at hhead
    exact hne (Option.some.inj hhead).symm
  constructor
  · rintro (h | h | h)
    · exact hruntime _ 'q' (by decide) (by decide) h
    · exact hruntime _ 'e' (by decide) (by decide) h
    · exact hundefined _ _ h
  · exact hundefined _ _

/-! ## What a packet needs -/

theorem writeLoop_ends (fuel iBits iVal : ℕ) (o : OBits) : Ends (OBits.writeLoop fuel iBits iVal o) := by
  induction fuel generalizing iBits o with
  | zero => exact ends_ok o
  | succ fuel ih =>
    rw [OBits.writeLoop]
    by_cases hzero : iBits = 0
    · rw [if_pos hzero]
      exact ends_ok o
    · rw [if_neg hzero]
      dsimp only
      split_ifs
      · exact ends_error (not_dry_bounds _)
      · exact ih _ _

theorem write_ends (o : OBits) (iBits iVal : ℕ) : Ends (o.write iBits iVal) := by
  rw [OBits.write]
  split_ifs
  · exact ends_error (not_dry_bounds _)
  · exact writeLoop_ends _ _ _ o

theorem writes_ends (o : OBits) (fields : List (ℕ × ℕ)) : Ends (o.writes fields) := by
  induction fields generalizing o with
  | nil => exact ends_ok o
  | cons f fields ih =>
    rw [OBits.writes]
    exact ends_bind (write_ends o f.1 f.2) fun o' _ => ih o'

theorem push_back_ends (p : MediaPacket) (buffer : List UInt8) : Ends (p.push_back buffer) := by
  rw [MediaPacket.push_back]
  split_ifs
  · exact ends_error (not_dry_bounds _)
  · exact ends_ok _

/-- Every queue holds a packet. -/
def Filled (s : TSMultiplexer) : Prop := ∀ i c, s.cores i = some c → c.vQueue ≠ []

theorem front_ok {c : Core} (hs : Filled s) (hc : s.cores iStream = some c) :
    ∃ pMux pPckt, s.front iStream = .ok (pMux, pPckt) := by
  have hfilled := hs iStream c hc
  obtain ⟨pMux, hentry, rfl⟩ := Option.map_eq_some_iff.1 hc
  rw [TSMultiplexer.front, hentry]
  cases hqueue : pMux.vQueue with
  | nil => exact absurd hqueue hfilled
  | cons p rest => exact ⟨pMux, p, by simp only [hqueue]⟩

theorem front_ends {c : Core} (hs : Filled s) (hc : s.cores iStream = some c) : Ends (s.front iStream) := by
  obtain ⟨pMux, pPckt, hfront⟩ := front_ok hs hc
  rw [hfront]
  exact ends_ok _

theorem entryFields_ends (desc : Option MediaDescriptor) {pMux : Muxx} (h : pMux.vQueue ≠ []) :
    Ends (entryFields desc pMux) := by
  rw [entryFields]
  cases hqueue : pMux.vQueue with
  | nil => exact absurd hqueue h
  | cons p rest =>
    dsimp only
    by_cases hcodec : GetPmtID p.codec = 0
    · rw [if_pos hcodec]
      exact ends_error (by decide)
    · rw [if_neg hcodec]
      apply ends_bind
      · rw [infoFields]
        split_ifs
        · split
          · exact ends_error (by decide)
          · exact ends_ok _
        · exact ends_ok _
      · exact fun info _ => ends_ok _

theorem pmtEntries_ends (desc : Option MediaDescriptor) {es : List (ℤ × Muxx)}
    (h : ∀ e ∈ es, e.2.vQueue ≠ []) (oHeader : OBits) : Ends (pmtEntries desc es oHeader) := by
  induction es generalizing oHeader with
  | nil => exact ends_ok oHeader
  | cons e es ih =>
    rw [pmtEntries]
    apply ends_bind (entryFields_ends desc (h e List.mem_cons_self))
    intro fields _
    apply ends_bind (writes_ends oHeader fields)
    exact fun o _ => ih (fun e' he' => h e' (List.mem_cons_of_mem e he')) o

theorem closeSection_ends (oHeader : OBits) : Ends (closeSection oHeader) := write_ends _ _ _

theorem body_ends (hs : Filled s) (iType : TSType) (n : ℕ) (pPckt : MediaPacket) :
    Ends (s.body iType n pPckt) := by
  cases iType with
  | PES => exact ends_ok _
  | FILL => exact ends_ok _
  | PCR => exact ends_ok _
  | PAT =>
    apply ends_bind (writes_ends _ _)
    intro o _
    apply ends_bind (write_ends _ _ _)
    exact fun o _ => ends_ok _
  | PMT =>
    apply ends_bind (writes_ends _ _)
    intro o _
    apply ends_bind (pmtEntries_ends _ _ o)
    · intro o _
      apply ends_bind (closeSection_ends o)
      exact fun o _ => ends_ok _
    · intro e he
      exact hs e.1 (core e.2) (entry_core he)
  | SDT =>
    apply ends_bind (writes_ends _ _)
    intro o _
    apply ends_bind (write_ends _ _ _)
    intro o _
    apply ends_bind (closeSection_ends _)
    exact fun o _ => ends_ok _

theorem createTSPacket_ends {c : Core} (hs : Filled s) (hc : s.cores iStream = some c) (iType : TSType)
    (bStart bPCR : Bool) : Ends (s.createTSPacket iStream iType bStart bPCR) := by
  rw [TSMultiplexer.createTSPacket]
  apply ends_bind (front_ends hs hc)
  intro front _
  apply ends_bind
  · apply ends_bind (writes_ends _ _)
    exact fun o _ => push_back_ends _ _
  · intro pHeader _
    apply ends_bind (body_ends hs iType _ _)
    intro body _
    apply ends_bind (push_back_ends _ _)
    intro pTSPckt _
    split_ifs
    · exact ends_error (not_dry_size _)
    · exact ends_ok _

/-! ## Steps end -/

theorem filled_same (hs : Filled s) (h : t.cores = s.cores) : Filled t := by
  intro i c hc
  rw [h] at hc
  exact hs i c hc

theorem filled_update {c' : Core} (hs : Filled s) (h : t.cores = Function.update s.cores iStream (some c'))
    (hc' : c'.vQueue ≠ []) : Filled t := by
  intro i c hc
  rw [h, Function.update_apply] at hc
  split_ifs at hc
  · cases hc
    exact hc'
  · exact hs i c hc

variable {c : Core}

theorem createSDT_ends (hs : Filled s) (hc : s.cores iStream = some c) : Ends (s.createSDT iStream) := by
  rw [TSMultiplexer.createSDT]
  split_ifs
  · exact ends_map (createTSPacket_ends hs hc _ _ _)
  · exact ends_ok s

theorem createPAT_ends (hs : Filled s) (hc : s.cores iStream = some c) : Ends (s.createPAT iStream) := by
  rw [TSMultiplexer.createPAT]
  split_ifs
  · apply ends_bind (createTSPacket_ends hs hc _ _ _)
    intro r hcreate
    have hsame := created_cores (by decide) hcreate
    exact ends_map (createTSPacket_ends (filled_same hs hsame) (by rw [hsame, hc]) _ _ _)
  · exact ends_ok s

theorem createMedia_ends (hs : Filled s) (hc : s.cores iStream = some c) (pPckt : MediaPacket)
    (bStart bPCR : Bool) : Ends (s.createMedia iStream pPckt bStart bPCR) := by
  rw [TSMultiplexer.createMedia]
  split_ifs
  · exact ends_map (createTSPacket_ends hs hc _ _ _)
  · exact ends_map (createTSPacket_ends hs hc _ _ _)
  · apply ends_bind (createTSPacket_ends hs hc _ _ _)
    intro r hcreate
    obtain ⟨p, rest, -, -, hr⟩ := created_data hc hcreate
    have hfilled : Filled r.2 := filled_update hs hr (by simp)
    rw [TSMultiplexer.advanced]
    apply ends_bind (front_ends hfilled (by rw [hr, Function.update_self]))
    intro front _
    split_ifs
    · exact ends_error (by decide)
    · exact ends_ok _

theorem step_ends (hs : Filled s) (hc : s.cores iStream = some c) : Ends (s.step iStream) := by
  rw [TSMultiplexer.step]
  apply ends_bind (front_ends hs hc)
  rintro ⟨pMux, pPckt⟩ hfront
  obtain ⟨hcore, rest, hqueue⟩ := front_core hfront
  have hbegun := begun_cores hfront
  have hb : Filled (s.begun iStream pMux pPckt) := by
    apply filled_update hs hbegun
    rw [started_queue, hqueue]
    exact List.cons_ne_nil _ _
  have hbc : (s.begun iStream pMux pPckt).cores iStream = some (core pMux).started := by
    rw [hbegun, Function.update_self]
  apply ends_bind (createSDT_ends hb hbc)
  intro u hsdt
  have hu := createSDT_cores hsdt
  apply ends_bind (createPAT_ends (filled_same hb hu) (by rw [hu, hbc]))
  intro v hpat
  have hv := (createPAT_cores hpat).trans hu
  have hvf := filled_same hb hv
  have hvc : v.cores iStream = some (core pMux).started := by rw [hv, hbc]
  apply ends_bind (createMedia_ends hvf hvc _ _ _)
  intro w hmedia
  obtain ⟨c', hworked, hw⟩ := createMedia_cores hvc hmedia
  have hc' : c'.vQueue ≠ [] := by
    cases hworked with
    | idle =>
      rw [started_queue, hqueue]
      exact List.cons_ne_nil _ _
    | sent p rest' n hq hn hsize hne =>
      rw [Core.sent, started_queue, hq]
      exact List.cons_ne_nil _ _
  rw [TSMultiplexer.depleted]
  apply ends_bind (front_ends (filled_update hvf hw hc') (by rw [hw, Function.update_self]))
  intro front _
  split_ifs
  · exact ends_ok _
  · exact ends_ok _

/-! ## Steps get on -/

def TSMultiplexer.load (s : TSMultiplexer) (i : ℤ) : ℕ :=
  match s.cores i with
  | none => 0
  | some c => c.weight

/-- What waits in the queues of the streams `ks`. -/
def TSMultiplexer.weight (ks : List ℤ) (s : TSMultiplexer) : ℕ := (ks.map s.load).sum

/-- How far stream `i` is ahead of the clock, beyond the delay. -/
def TSMultiplexer.lag (s : TSMultiplexer) (i : ℤ) : ℕ :=
  match (s.cores i).bind fun c => c.vQueue.head? with
  | none => 0
  | some p => uint32 (p.dts-s.iPCR-s.iPCRDelay+s.tickTime)

/-- It falls with every step on stream `i`. -/
def TSMultiplexer.remaining (ks : List ℤ) (i : ℤ) (s : TSMultiplexer) : ℕ := s.weight ks*2^32+s.lag i

/-- The clock moves, and the packets of one step do not take it around. -/
def Ticking (s : TSMultiplexer) : Prop :=
  1 < s.iMuxRate → 0 < s.tickTime ∧ 4*s.tickTime ≤ s.iPCRDelay+2^31

variable {ks : List ℤ} {c' : Core} {p : MediaPacket} {rest : List MediaPacket}

theorem load_update (hc : s.cores iStream = some c)
    (h : t.cores = Function.update s.cores iStream (some c')) (j : ℤ) :
    (j = iStream → s.load j = c.weight ∧ t.load j = c'.weight) ∧ (j ≠ iStream → t.load j = s.load j) := by
  constructor
  · rintro rfl
    rw [TSMultiplexer.load, hc, TSMultiplexer.load, h, Function.update_self]
    exact ⟨rfl, rfl⟩
  · intro hj
    rw [TSMultiplexer.load, h, Function.update_of_ne hj, TSMultiplexer.load]

theorem weight_less (hk : iStream ∈ ks) (hc : s.cores iStream = some c)
    (h : t.cores = Function.update s.cores iStream (some c')) (hless : c'.weight < c.weight) :
    t.weight ks < s.weight ks := by
  have hload := load_update hc h
  apply List.sum_lt_sum
  · intro j _
    by_cases hj : j = iStream
    · have hboth := (hload j).1 hj
      omega
    · exact ((hload j).2 hj).le
  · have hboth := (hload iStream).1 rfl
    exact ⟨iStream, hk, by omega⟩

theorem weight_same (hc : s.cores iStream = some c)
    (h : t.cores = Function.update s.cores iStream (some c')) (hsame : c'.weight = c.weight) :
    t.weight ks = s.weight ks := by
  have hload := load_update hc h
  rw [TSMultiplexer.weight, TSMultiplexer.weight]
  congr 1
  apply List.map_congr_left
  intro j _
  by_cases hj : j = iStream
  · have hboth := (hload j).1 hj
    omega
  · exact (hload j).2 hj

theorem lag_less_max (s : TSMultiplexer) (i : ℤ) : s.lag i < 2^32 := by
  rw [TSMultiplexer.lag]
  split
  · decide
  · rw [uint32]
    omega

theorem lag_front (hc : s.cores iStream = some c) (hqueue : c.vQueue = p::rest) :
    s.lag iStream = uint32 (p.dts-s.iPCR-s.iPCRDelay+s.tickTime) := by
  rw [TSMultiplexer.lag, hc]
  dsimp only [Option.bind_some]
  rw [hqueue]
  rfl

theorem remaining_less (hweight : t.weight ks < s.weight ks) (i j : ℤ) :
    t.remaining ks i < s.remaining ks j := by
  have hlag := lag_less_max t i
  rw [TSMultiplexer.remaining, TSMultiplexer.remaining]
  omega

/-- The clock catches up with the stream. -/
theorem idle_lag (htick : Ticking s) (hc : s.cores iStream = some c) (hqueue : c.vQueue = p::rest)
    (ht : t.cores = Function.update s.cores iStream (some c.started)) (hidle : Idles s t p) :
    t.lag iStream < s.lag iStream := by
  obtain ⟨n, hn, hrate, hclocks, x, hx, hfar⟩ := hidle
  obtain ⟨hpos, hroom⟩ := htick hrate
  have hrate' : t.iMuxRate = s.iMuxRate := congrArg Rules.iMuxRate hclocks.rules
  have hdelay : t.iPCRDelay = s.iPCRDelay := congrArg Rules.iPCRDelay hclocks.rules
  have htime : t.tickTime = s.tickTime := by rw [TSMultiplexer.tickTime, hrate', TSMultiplexer.tickTime]
  have hPCR := hclocks.iPCR
  have htc : t.cores iStream = some c.started := by rw [ht, Function.update_self]
  rw [lag_front htc ((started_queue c).trans hqueue), lag_front hc hqueue, hdelay, htime]
  have hhigh := int32_high (p.dts-x)
  have hmod := int32_emod (p.dts-x)
  generalize int32 (p.dts-x) = y at hfar hhigh hmod
  push_cast at hPCR
  have hspan : (n : ℤ)*s.tickTime ≤ 3*s.tickTime :=
    mul_le_mul_of_nonneg_right (by exact_mod_cast hn) hpos.le
  have hnonneg : 0 ≤ (n : ℤ)*s.tickTime := mul_nonneg (Int.natCast_nonneg n) hpos.le
  have hnext : ((n : ℤ)+1)*s.tickTime = n*s.tickTime+s.tickTime := by ring
  rw [hnext] at hPCR
  generalize (n : ℤ)*s.tickTime = m at *
  have hafter : (p.dts-t.iPCR-s.iPCRDelay+s.tickTime) % 2^32 = y-s.iPCRDelay := by omega
  have hbefore : (p.dts-s.iPCR-s.iPCRDelay+s.tickTime) % 2^32 = y-s.iPCRDelay+m+s.tickTime := by omega
  rw [uint32, uint32, hafter, hbefore]
  omega

/-- Every step gets on: data or a packet leave, or the clock catches up. -/
theorem step_remaining {b : Bool} (htick : Ticking s) (hk : iStream ∈ ks) (h : s.step iStream = .ok (b, t)) :
    t.remaining ks iStream < s.remaining ks iStream ∧ t.weight ks ≤ s.weight ks ∧
      (b = false → t.weight ks < s.weight ks) := by
  obtain ⟨c, c', hc, ht, -, hstepped⟩ := step_stepped h
  cases hstepped with
  | idle p rest hqueue hidle =>
    have hweight : t.weight ks = s.weight ks := weight_same hc ht (started_weight c)
    have hlag := idle_lag htick hc hqueue ht hidle
    refine ⟨?_, hweight.le, fun hb => by cases hb⟩
    rw [TSMultiplexer.remaining, TSMultiplexer.remaining, hweight]
    omega
  | part p rest m hqueue hroom hless hbegun =>
    have hturn : Turn true (decide (iStream = s.iLocalRefStream)) c _ := .part p rest m rfl hqueue hroom hless hbegun
    have hweight := weight_less hk hc ht (turn_weight hturn)
    exact ⟨remaining_less hweight _ _, hweight.le, fun hb => by cases hb⟩
  | last p c' hqueue hsmall hfresh =>
    have hturn : Turn true (decide (iStream = s.iLocalRefStream)) c c' := .last p c' hqueue (fun _ => hsmall) hfresh
    have hweight := weight_less hk hc ht (turn_weight hturn)
    exact ⟨remaining_less hweight _ _, hweight.le, fun _ => hweight⟩

/-! ## Turns of a pass -/

theorem rules_ticking (htick : Ticking s) (h : t.rules = s.rules) : Ticking t := by
  have hrate : t.iMuxRate = s.iMuxRate := congrArg Rules.iMuxRate h
  have hdelay : t.iPCRDelay = s.iPCRDelay := congrArg Rules.iPCRDelay h
  rw [Ticking, TSMultiplexer.tickTime, hrate, hdelay]
  exact htick

theorem load_pos (hs : Filled s) (hk : iStream ∈ ks) (hc : s.cores iStream = some c) :
    0 < s.weight ks := by
  have hload : s.load iStream = c.weight := by rw [TSMultiplexer.load, hc]
  have hle : s.load iStream ≤ s.weight ks := List.single_le_sum (by simp) _ (List.mem_map_of_mem hk)
  cases hqueue : c.vQueue with
  | nil => exact absurd hqueue (hs iStream c hc)
  | cons p rest =>
    rw [Core.weight, hqueue, List.map_cons, List.sum_cons] at hload
    omega

/-- After a step that leaves some of the front every queue holds a packet. -/
theorem step_filled (hs : Filled s) (h : s.step iStream = .ok (true, t)) : Filled t := by
  obtain ⟨c, c', hc, ht, -, hstepped⟩ := step_stepped h
  apply filled_update hs ht
  cases hstepped with
  | idle p rest hqueue hidle =>
    rw [started_queue, hqueue]
    exact List.cons_ne_nil _ _
  | part p rest m hqueue hroom hless hbegun =>
    obtain ⟨q, hq, -⟩ := took_queue hqueue m
    rw [hq]
    exact List.cons_ne_nil _ _

theorem steps_ends {fuel : ℕ} (hs : Filled s) (hc : s.cores iStream = some c) (htick : Ticking s)
    (hk : iStream ∈ ks) (hfuel : s.remaining ks iStream ≤ fuel) :
    Ends (TSMultiplexer.steps iStream fuel s) := by
  induction fuel generalizing s c with
  | zero =>
    have hpos := load_pos hs hk hc
    rw [TSMultiplexer.remaining] at hfuel
    omega
  | succ fuel ih =>
    rw [TSMultiplexer.steps]
    apply ends_bind (step_ends hs hc)
    rintro ⟨b, u⟩ hstep
    by_cases hmore : b = true ∧ ¬s.bInterleave = true
    · rw [if_pos hmore]
      rw [hmore.1] at hstep
      obtain ⟨d, d', -, hu, hrules, -⟩ := step_stepped hstep
      have hless : u.remaining ks iStream < s.remaining ks iStream := (step_remaining htick hk hstep).1
      exact ih (step_filled hs hstep) (by rw [hu, Function.update_self]) (rules_ticking htick hrules)
        (show u.remaining ks iStream ≤ fuel by omega)
    · rw [if_neg hmore]
      exact ends_ok u

/-- The steps of a turn: a packet without data, or a turn of the queue. -/
theorem steps_turned {fuel : ℕ} (h : TSMultiplexer.steps iStream fuel s = .ok t) : ∃ c c',
    s.cores iStream = some c ∧ t.cores = Function.update s.cores iStream (some c') ∧ t.rules = s.rules ∧
      (s.bInterleave = true ∧ c' = c.started ∨
        Turn s.bInterleave (decide (iStream = s.iLocalRefStream)) c c') := by
  induction fuel generalizing s with
  | zero => cases h
  | succ fuel ih =>
    rw [TSMultiplexer.steps] at h
    obtain ⟨⟨b, u⟩, hstep, h⟩ := bind_ok.1 h
    obtain ⟨c, d, hc, hu, hrules, hstepped⟩ := step_stepped hstep
    by_cases hmore : b = true ∧ ¬s.bInterleave = true
    · rw [if_pos hmore] at h
      obtain ⟨d', c', hd, ht, hrules', hcase⟩ := ih h
      rw [hu, Function.update_self] at hd
      obtain rfl := Option.some.inj hd
      have hwhole : u.bInterleave = s.bInterleave := congrArg Rules.bInterleave hrules
      refine ⟨c, c', hc, by rw [ht, hu, Function.update_idem], hrules'.trans hrules, Or.inr ?_⟩
      rw [hwhole] at hcase
      rcases hcase with ⟨hinterleave, -⟩ | hturn
      · exact absurd hinterleave hmore.2
      · -- What the rest of the steps take away is what the first one left of the front.
        have hfront : ∃ p q rest, c.vQueue = p::rest ∧ d.vQueue = q::rest := by
          cases hstepped with
          | idle p rest hqueue hidle => exact ⟨p, p, rest, hqueue, (started_queue c).trans hqueue⟩
          | part p rest m hqueue hroom hless hbegun =>
            obtain ⟨q, hq, -⟩ := took_queue hqueue m
            exact ⟨p, q, rest, hqueue, hq⟩
          | last p c' hqueue hsmall hfresh => cases hmore.1
        obtain ⟨p, q, rest, hqueue, hq⟩ := hfront
        cases hturn with
        | part p' rest' m hinterleave => exact absurd hinterleave hmore.2
        | last p' c' hqueue' hsmall hfresh =>
          rw [hq] at hqueue'
          cases hqueue'
          exact .last p c' hqueue (fun hinterleave => absurd hinterleave hmore.2) hfresh
    · rw [if_neg hmore] at h
      cases h
      refine ⟨c, d, hc, hu, hrules, ?_⟩
      cases hstepped with
      | idle p rest hqueue hidle => exact Or.inl ⟨by simpa using hmore, rfl⟩
      | part p rest m hqueue hroom hless hbegun =>
        exact Or.inr (.part p rest m (by simpa using hmore) hqueue hroom hless hbegun)
      | last p c' hqueue hsmall hfresh => exact Or.inr (.last p d hqueue (fun _ => hsmall) hfresh)

theorem steps_remaining {fuel : ℕ} (htick : Ticking s) (hk : iStream ∈ ks)
    (h : TSMultiplexer.steps iStream fuel s = .ok t) :
    t.remaining ks iStream < s.remaining ks iStream := by
  induction fuel generalizing s with
  | zero => cases h
  | succ fuel ih =>
    rw [TSMultiplexer.steps] at h
    obtain ⟨⟨b, u⟩, hstep, h⟩ := bind_ok.1 h
    have hless := (step_remaining htick hk hstep).1
    by_cases hmore : b = true ∧ ¬s.bInterleave = true
    · rw [if_pos hmore] at h
      obtain ⟨-, -, -, -, hrules, -⟩ := step_stepped hstep
      exact (ih (rules_ticking htick hrules) h).trans hless
    · rw [if_neg hmore] at h
      cases h
      exact hless

/-! ## The stream of the next turn -/

/-- The first one of those with the lowest DTS. -/
structure First (s : TSMultiplexer) (i : ℤ) (c : Core) (p : MediaPacket) (rest : List MediaPacket) : Prop where
  entry : s.cores i = some c
  queue : c.vQueue = p::rest
  media : p.type = .media
  low : p.dts < 0x7FFFFFFF
  lowest : ∀ j d, s.cores j = some d → ∃ q rest', d.vQueue = q::rest' ∧
    (q.type = .media → p.dts < q.dts ∨ p.dts = q.dts ∧ i ≤ j)

theorem selectMux_first {i : ℤ} (h : s.toMultiplexer.selectMux = .ok i) :
    (i = -1 ∧ ∀ j d, s.cores j = some d → ∃ q rest, d.vQueue = q::rest ∧
      (q.type = .media → 0x7FFFFFFF ≤ q.dts)) ∨ ∃ c p rest, First s i c p rest := by
  rcases selectLoop_first (entries_sorted s.toMultiplexer) h with ⟨hi, hall⟩ | ⟨e, he, front, ⟨rest, hqueue⟩, hmedia, hi, hlow, hall⟩
  · refine Or.inl ⟨hi, ?_⟩
    intro j d hd
    obtain ⟨pMux, hentry, rfl⟩ := core_entry hd
    obtain ⟨f, ⟨rest, hf⟩, hle⟩ := hall _ hentry
    exact ⟨f, rest, hf, hle⟩
  · right
    refine ⟨core e.2, front, rest, ?_, hqueue, hmedia, hlow, ?_⟩
    · rw [← hi]
      exact entry_core he
    · intro j d hd
      obtain ⟨pMux, hentry, rfl⟩ := core_entry hd
      obtain ⟨f, ⟨rest', hf⟩, hle⟩ := hall _ hentry
      exact ⟨f, rest', hf, hle⟩

theorem selectMux_ends (hs : Filled s) : Ends s.toMultiplexer.selectMux := by
  obtain ⟨iStream, hselect⟩ : ∃ i, s.toMultiplexer.selectMux = .ok i :=
    selectLoop_ok fun e he => hs e.1 (core e.2) (entry_core he)
  rw [hselect]
  exact ends_ok iStream

/-- A packet without data leaves the choice as it is. -/
theorem first_unique {i j : ℤ} {d : Core} {q : MediaPacket} {rest' : List MediaPacket}
    (hsame : ∀ k, (t.cores k).map Core.vQueue = (s.cores k).map Core.vQueue) (h : First s i c p rest)
    (h' : First t j d q rest') : j = i := by
  have hi := hsame i
  rw [h.entry, Option.map_some, h.queue] at hi
  obtain ⟨c', hc', hqueue⟩ := Option.map_eq_some_iff.1 hi
  have hj := hsame j
  rw [h'.entry, Option.map_some, h'.queue] at hj
  obtain ⟨d', hd', hqueue'⟩ := Option.map_eq_some_iff.1 hj.symm
  obtain ⟨f, r, hf, hle⟩ := h.lowest j d' hd'
  rw [hqueue'] at hf
  cases hf
  obtain ⟨f', r', hf', hle'⟩ := h'.lowest i c' hc'
  rw [hqueue] at hf'
  cases hf'
  have hle := hle h'.media
  have hle' := hle' h.media
  omega

/-! ## A pass ends -/

/-- The queues in a pass with the reference stream `L` and the end `T`: until the reference stream gets
to the end, each one holds a packet from there on; and none is empty by the DTS at which it stops. -/
structure Going (ks : List ℤ) (T L : ℤ) (s : TSMultiplexer) : Prop where
  known : ∀ i c, s.cores i = some c → i ∈ ks
  filled : Filled s
  present : ∃ c, s.cores L = some c
  early : ∀ c p rest, s.cores L = some c → c.vQueue = p::rest → p.type = .media → p.dts < T →
    ∀ i d, s.cores i = some d → ∃ q ∈ d.vQueue, q.type ≠ .media ∨ T ≤ q.dts
  outlast : ∀ c x, s.cores L = some c → Stops s.bInterleave T c x →
    ∀ i d, i ≠ L → s.cores i = some d → ¬Drains s.bInterleave (Due L x i) d

variable {T L i : ℤ} {fuel : ℕ}

/-- What a turn makes of the chosen queue. -/
def Turned (s : TSMultiplexer) (i : ℤ) (c c' : Core) : Prop :=
  s.bInterleave = true ∧ c' = c.started ∨ Turn s.bInterleave (decide (i = s.iLocalRefStream)) c c'

theorem turned_rest (h : Turned s i c c') (hqueue : c.vQueue = p::rest) {q : MediaPacket} (hq : q ∈ rest) :
    q ∈ c'.vQueue := by
  rcases h with ⟨-, rfl⟩ | hturn
  · rw [started_queue, hqueue]
    exact List.mem_cons_of_mem p hq
  · exact turn_rest hturn hqueue hq

theorem turned_stops {x : ℤ} (h : Turned s i c c') (hlocal : i = s.iLocalRefStream) (hqueue : c.vQueue = p::rest)
    (hmedia : p.type = .media) (hT : p.dts < T) (hstops : Stops s.bInterleave T c' x) :
    Stops s.bInterleave T c x := by
  rcases h with ⟨-, rfl⟩ | hturn
  · exact stops_started hstops
  · rw [decide_eq_true hlocal] at hturn
    exact stops_turn hqueue hmedia hT hturn hstops

theorem turned_drains {P : ℤ → Prop} (h : Turned s i c c') (hother : i ≠ s.iLocalRefStream)
    (hqueue : c.vQueue = p::rest) (hmedia : p.type = .media) (hP : P p.dts)
    (hdrains : Drains s.bInterleave P c') : Drains s.bInterleave P c := by
  rcases h with ⟨-, rfl⟩ | hturn
  · exact drains_started hdrains
  · rw [decide_eq_false hother] at hturn
    exact drains_turn hqueue hmedia hP hturn hdrains

/-- The front of the reference stream is a packet of media that the chosen stream comes before. -/
structure Chosen (s : TSMultiplexer) (T L i : ℤ) (p d : MediaPacket) (c : Core) : Prop where
  entry : s.cores L = some c
  queue : ∃ rest, c.vQueue = d::rest
  media : d.type = .media
  before : p.dts < d.dts ∨ p.dts = d.dts ∧ i ≤ L
  going : i = L → p = d ∧ p.dts < T

theorem chosen_early (hs : Going ks T L s) (hfirst : First s i c p rest) {d : MediaPacket} {cL : Core}
    (h : Chosen s T L i p d cL) (hearly : d.dts < T) {j : ℤ} {e : Core} (hj : s.cores j = some e) :
    ∃ q, (if j = i then q ∈ rest else q ∈ e.vQueue) ∧ (q.type ≠ .media ∨ T ≤ q.dts) := by
  obtain ⟨restL, hqueueL⟩ := h.queue
  obtain ⟨q, hq, hlate⟩ := hs.early cL d restL h.entry hqueueL h.media hearly j e hj
  refine ⟨q, ?_, hlate⟩
  split_ifs with hij
  · subst hij
    rw [hfirst.entry] at hj
    cases hj
    rw [hfirst.queue] at hq
    rcases List.mem_cons.1 hq with rfl | hq
    · -- The chosen front is media, and not late.
      have hbefore := h.before
      rcases hlate with hkind | hlate
      · exact absurd hfirst.media hkind
      · omega
    · exact hq
  · exact hq

theorem turned_filled (hs : Going ks T L s) (hlocal : s.iLocalRefStream = L) (hfirst : First s i c p rest)
    {d : MediaPacket} {cL : Core} (h : Chosen s T L i p d cL) (hturned : Turned s i c c') :
    c'.vQueue ≠ [] := by
  intro hempty
  by_cases hearly : d.dts < T
  · obtain ⟨q, hq, -⟩ := chosen_early hs hfirst h hearly hfirst.entry
    rw [if_pos rfl] at hq
    have hmem := turned_rest hturned hfirst.queue hq
    rw [hempty] at hmem
    cases hmem
  · have hother : i ≠ L := by
      intro hi
      have hgoing := h.going hi
      rw [← hgoing.1] at hearly
      exact hearly hgoing.2
    obtain ⟨restL, hqueueL⟩ := h.queue
    have hstops : Stops s.bInterleave T cL d.dts := stops_here hqueueL h.media (not_lt.1 hearly)
    apply hs.outlast cL d.dts h.entry hstops i c hother hfirst.entry
    have hbefore := h.before
    apply turned_drains hturned (by rw [hlocal]; exact hother) hfirst.queue hfirst.media
    · show p.dts < d.dts ∨ p.dts = d.dts ∧ i < L
      omega
    · exact ⟨c', .refl c', hempty⟩

/-- A turn of the stream that is chosen goes on. -/
theorem going_turn (hs : Going ks T L s) (hlocal : s.iLocalRefStream = L) (hfirst : First s i c p rest)
    {d : MediaPacket} {cL : Core} (h : Chosen s T L i p d cL) (hturned : Turned s i c c')
    (ht : t.cores = Function.update s.cores i (some c')) (hrules : t.rules = s.rules) :
    Going ks T L t := by
  have hwhole : t.bInterleave = s.bInterleave := congrArg Rules.bInterleave hrules
  obtain ⟨restL, hqueueL⟩ := h.queue
  have hbefore := h.before
  constructor
  · intro j e hj
    rw [ht, Function.update_apply] at hj
    split_ifs at hj with hij
    · rw [hij]
      exact hs.known i c hfirst.entry
    · exact hs.known j e hj
  · exact filled_update hs.filled ht (turned_filled hs hlocal hfirst h hturned)
  · rw [ht, Function.update_apply]
    split_ifs
    · exact ⟨c', rfl⟩
    · exact hs.present
  · -- Before the end nothing leaves that is due from there on.
    intro c₁ p₁ rest₁ hc₁ hqueue₁ hmedia₁ hlow₁ j e hj
    have hearly : d.dts < T := by
      rw [ht, Function.update_apply] at hc₁
      split_ifs at hc₁ with hi
      · have hgoing := h.going hi.symm
        rw [← hgoing.1]
        exact hgoing.2
      · rw [h.entry] at hc₁
        cases hc₁
        rw [hqueueL] at hqueue₁
        cases hqueue₁
        exact hlow₁
    rw [ht, Function.update_apply] at hj
    split_ifs at hj with hij
    · cases hj
      obtain ⟨q, hq, hlate⟩ := chosen_early hs hfirst h hearly hfirst.entry
      rw [if_pos rfl] at hq
      exact ⟨q, turned_rest hturned hfirst.queue hq, hlate⟩
    · obtain ⟨q, hq, hlate⟩ := chosen_early hs hfirst h hearly hj
      rw [if_neg hij] at hq
      exact ⟨q, hq, hlate⟩
  · intro c₁ x hc₁ hstops j e hj hej
    rw [hwhole] at hstops ⊢
    have hstopsL : Stops s.bInterleave T cL x := by
      rw [ht, Function.update_apply] at hc₁
      split_ifs at hc₁ with hi
      · cases hc₁
        have hentry := h.entry
        rw [hi, hfirst.entry] at hentry
        cases hentry
        exact turned_stops hturned (by rw [hlocal, hi]) hfirst.queue hfirst.media (h.going hi.symm).2 hstops
      · rw [h.entry] at hc₁
        cases hc₁
        exact hstops
    rw [ht, Function.update_apply] at hej
    split_ifs at hej with hij
    · cases hej
      subst hij
      have hle := stops_from hqueueL hstopsL
      intro hdrains
      apply hs.outlast cL x h.entry hstopsL j c hj hfirst.entry
      apply turned_drains hturned (by rw [hlocal]; exact hj) hfirst.queue hfirst.media _ hdrains
      show p.dts < x ∨ p.dts = x ∧ j < L
      omega
    · exact hs.outlast cL x h.entry hstopsL j e hj hej

theorem resetMux_ends (s : Multiplexer) : Ends s.resetMux := by
  have hloop : ∀ (es : List (ℤ × Muxx)) (pckt : Option MediaPacket) (iMax : ℤ),
      Ends (resetLoop pckt iMax es) := by
    intro es
    induction es with
    | nil => exact fun pckt _ => ends_ok pckt
    | cons e es ih =>
      intro pckt iMax
      rw [resetLoop]
      cases e.2.vQueue with
      | nil => exact ends_error (by decide)
      | cons p rest =>
        dsimp only
        split_ifs
        · exact ends_error (by decide)
        · exact ih _ _
        · exact ih _ _
  rw [Multiplexer.resetMux]
  split
  · next e he => exact ends_error (hloop _ _ _ e he)
  · exact ends_error (by decide)
  · exact ends_ok _

/-- A turn of a pass is over: less is left to be sent, whichever stream comes next. -/
theorem turned_remaining {j : ℤ} {c₁ : Core} {p₁ : MediaPacket} {rest₁ : List MediaPacket}
    (htick : Ticking s) (hk : i ∈ ks) (hfirst : First s i c p rest)
    (hsteps : TSMultiplexer.steps i fuel s = .ok t) (hturned : Turned s i c c')
    (ht : t.cores = Function.update s.cores i (some c')) (hnext : First t j c₁ p₁ rest₁) :
    t.remaining ks j < s.remaining ks i := by
  rcases hturned with ⟨-, rfl⟩ | hturn
  · have hsame : ∀ k, (t.cores k).map Core.vQueue = (s.cores k).map Core.vQueue := by
      intro k
      rw [ht, Function.update_apply]
      split_ifs with hki
      · rw [hki, hfirst.entry, Option.map_some, Option.map_some, started_queue]
      · rfl
    rw [first_unique hsame hfirst hnext]
    exact steps_remaining htick hk hsteps
  · exact remaining_less (weight_less hk hfirst.entry ht (turn_weight hturn)) j i

theorem pass_ends {B : ℤ} (hs : Going ks T L s) (hlocal : s.iLocalRefStream = L)
    (hT : int32 (B+s.iShape) = T) (htick : Ticking s) (hselect : s.toMultiplexer.selectMux = .ok i)
    (hfuel : i < 0 ∨ s.remaining ks i < fuel) (hpos : 0 < fuel) :
    Ends (TSMultiplexer.pass B fuel i s) := by
  induction fuel generalizing s i with
  | zero => omega
  | succ fuel ih =>
    rw [TSMultiplexer.pass]
    by_cases hcontrol : i < 0
    · rw [if_pos hcontrol, TSMultiplexer.control]
      apply ends_bind (resetMux_ends _)
      exact fun r _ => ends_ok _
    · rw [if_neg hcontrol]
      rcases selectMux_first hselect with ⟨hi, -⟩ | ⟨c, p, rest, hfirst⟩
      · omega
      obtain ⟨cL, hcL⟩ := hs.present
      apply ends_bind (front_ends hs.filled hfirst.entry)
      rintro ⟨pMux, q⟩ hfront
      obtain ⟨hcore, rest', hqueue⟩ := front_core hfront
      rw [hfirst.entry] at hcore
      obtain rfl := Option.some.inj hcore
      rw [hfirst.queue] at hqueue
      cases hqueue
      apply ends_bind
      · rw [TSMultiplexer.reached]
        split_ifs
        · exact ends_ok _
        · rw [hlocal]
          apply ends_bind (front_ends hs.filled hcL)
          exact fun front _ => ends_ok _
      intro bReached hreached
      cases bReached with
      | true => exact ends_ok _
      | false =>
        -- The pass goes on: the front of the reference stream is media, and not at the end.
        have hchosen : ∃ d, Chosen s T L i p d cL := by
          rw [TSMultiplexer.reached, hlocal, hT] at hreached
          by_cases hend : i = L ∧ T ≤ p.dts
          · rw [if_pos hend] at hreached
            cases hreached
          rw [if_neg hend] at hreached
          obtain ⟨⟨pMuxL, d⟩, hfrontL, hkind⟩ := bind_ok.1 hreached
          obtain ⟨hcoreL, restL, hqueueL⟩ := front_core hfrontL
          rw [hcL] at hcoreL
          obtain rfl := Option.some.inj hcoreL
          have hmedia : d.type = .media := by
            have hfalse := Except.ok.inj hkind
            simpa using hfalse
          obtain ⟨f, r, hf, hbefore⟩ := hfirst.lowest L _ hcL
          rw [hqueueL] at hf
          cases hf
          refine ⟨d, hcL, ⟨restL, hqueueL⟩, hmedia, hbefore hmedia, ?_⟩
          intro hi
          subst hi
          have hentry := hcL
          rw [hfirst.entry] at hentry
          rw [← Option.some.inj hentry, hfirst.queue] at hqueueL
          cases hqueueL
          exact ⟨rfl, not_le.1 fun hle => hend ⟨rfl, hle⟩⟩
        obtain ⟨d, hchosen⟩ := hchosen
        have hk := hs.known i _ hfirst.entry
        have hleft : s.remaining ks i ≤ fuel := by omega
        apply ends_bind (steps_ends hs.filled hfirst.entry htick hk hleft)
        intro t hsteps
        obtain ⟨c₁, c', hc₁, ht, hrules, hturned⟩ := steps_turned hsteps
        rw [hfirst.entry] at hc₁
        obtain rfl := Option.some.inj hc₁
        have hgoing := going_turn hs hlocal hfirst hchosen hturned ht hrules
        apply ends_bind (selectMux_ends hgoing.filled)
        intro j hnext
        have hlocal' : t.iLocalRefStream = s.iLocalRefStream := congrArg Rules.iLocalRefStream hrules
        have hshape : t.iShape = s.iShape := congrArg Rules.iShape hrules
        have hpos : 0 < s.remaining ks i := by
          have hload := load_pos hs.filled hk hfirst.entry
          rw [TSMultiplexer.remaining]
          omega
        apply ih hgoing (hlocal'.trans hlocal) (by rw [hshape, hT]) (rules_ticking htick hrules) hnext
        · rcases selectMux_first hnext with ⟨hj, -⟩ | ⟨c₂, p₂, rest₂, hfirst'⟩
          · left
            omega
          · have hless := turned_remaining htick hk hfirst hsteps hturned ht hfirst'
            exact Or.inr (by omega)
        · omega
/-! ## Sending ends -/

theorem aggregated_ends (pPckt : MediaPacket) : Ends (s.aggregated pPckt) := by
  rw [TSMultiplexer.aggregated]
  apply ends_bind (push_back_ends _ _)
  exact fun p _ => ends_ok _

theorem sent_ends (pPckt : MediaPacket) : Ends (s.sent pPckt) := by
  rw [TSMultiplexer.sent]
  split_ifs
  · exact aggregated_ends pPckt
  · exact ends_ok _

theorem release_ends {iStartDts iDuration : ℤ} {iTotal iPacket : ℕ} {iRefDts : ℤ} (vOut : List MediaPacket) :
    Ends (TSMultiplexer.release iStartDts iDuration iTotal iPacket iRefDts vOut s) := by
  induction vOut generalizing s iPacket iRefDts with
  | nil => exact ends_ok _
  | cons p vOut ih =>
    rw [TSMultiplexer.release]
    by_cases hcontrol : p.type ≠ .media
    · rw [if_pos hcontrol]
      exact ih
    · rw [if_neg hcontrol]
      apply ends_bind (sent_ends _)
      exact fun t _ => ih

/-! ## Fuel -/

theorem bind_more {x y : Except SirannonException α} {f g : α → Except SirannonException β}
    (h : x >>= f ≠ .error outOfFuel) (hx : x ≠ .error outOfFuel → y = x)
    (hf : ∀ a, x = .ok a → f a ≠ .error outOfFuel → g a = f a) : y >>= g = x >>= f := by
  cases x with
  | error e =>
    rw [hx (fun he => h (by cases he; rfl))]
    rfl
  | ok a =>
    rw [hx (by simp)]
    exact hf a rfl h

theorem steps_more (h : TSMultiplexer.steps i fuel s ≠ .error outOfFuel) :
    TSMultiplexer.steps i (fuel+1) s = TSMultiplexer.steps i fuel s := by
  induction fuel generalizing s with
  | zero => exact absurd rfl h
  | succ fuel ih =>
    rw [TSMultiplexer.steps] at h ⊢
    rw [TSMultiplexer.steps]
    apply bind_more h (fun _ => rfl)
    intro r _ hr
    by_cases hmore : r.1 = true ∧ ¬s.bInterleave = true
    · rw [if_pos hmore] at hr ⊢
      rw [if_pos hmore]
      exact ih hr
    · rw [if_neg hmore, if_neg hmore]

theorem pass_more {B : ℤ} (h : TSMultiplexer.pass B fuel i s ≠ .error outOfFuel) :
    TSMultiplexer.pass B (fuel+1) i s = TSMultiplexer.pass B fuel i s := by
  induction fuel generalizing s i with
  | zero => exact absurd rfl h
  | succ fuel ih =>
    rw [TSMultiplexer.pass] at h ⊢
    rw [TSMultiplexer.pass]
    by_cases hcontrol : i < 0
    · rw [if_pos hcontrol, if_pos hcontrol]
    · rw [if_neg hcontrol] at h ⊢
      rw [if_neg hcontrol]
      apply bind_more h (fun _ => rfl)
      intro front _ h
      apply bind_more h (fun _ => rfl)
      intro bReached _ h
      cases bReached with
      | true => rfl
      | false =>
        apply bind_more h steps_more
        intro t _ h
        apply bind_more h (fun _ => rfl)
        exact fun j _ => ih

/-- A call that ends does so with all that it is allowed. -/
theorem process_more (h : s.process fuel ≠ .error outOfFuel) : s.process (fuel+1) = s.process fuel := by
  rw [TSMultiplexer.process] at h ⊢
  rw [TSMultiplexer.process]
  by_cases hready : s.toMultiplexer.checkMux = false
  · rw [if_pos hready, if_pos hready]
  rw [if_neg hready] at h ⊢
  rw [if_neg hready]
  by_cases hsources : 0 < s.iSources ∧ (s.mMux.size : ℤ) ≠ s.iSources
  · rw [if_pos hsources, if_pos hsources]
  rw [if_neg hsources] at h ⊢
  rw [if_neg hsources]
  apply bind_more h (fun _ => rfl)
  intro t _ h
  rw [TSMultiplexer.processPass] at h ⊢
  rw [TSMultiplexer.processPass]
  apply bind_more h (fun _ => rfl)
  intro j _ h
  apply bind_more h (fun _ => rfl)
  intro B _ h
  exact bind_more h pass_more fun r _ _ => rfl

theorem process_enough (h : s.process fuel ≠ .error outOfFuel) (n : ℕ) :
    s.process (fuel+n) = s.process fuel := by
  induction n with
  | zero => rfl
  | succ n ih =>
    have hsame : s.process (fuel+n+1) = s.process (fuel+n) := process_more (by rwa [ih])
    exact hsame.trans ih

/-- A call ends, and not at an empty queue. -/
def TSMultiplexer.Completes (s : TSMultiplexer) : Prop := ∃ fuel, Ends (s.process fuel)

/-- A call that comes to an empty queue does not end otherwise. -/
theorem dry_incomplete {e : SirannonException} (hdry : Dry e) (h : s.process fuel = .error e) :
    ¬s.Completes := by
  rintro ⟨n, hn⟩
  have hfuel : s.process fuel ≠ .error outOfFuel := by
    rw [h]
    intro he
    cases he
    exact absurd hdry (by decide)
  have hn' : s.process n ≠ .error outOfFuel := fun he => (hn outOfFuel he).2 rfl
  have hsame := process_enough hfuel n
  rw [add_comm, process_enough hn' fuel, h] at hsame
  exact (hn e hsame).1 hdry

end Sirannon.TSMultiplexing
