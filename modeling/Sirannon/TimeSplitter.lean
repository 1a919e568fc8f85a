import Sirannon.GOPSplitter
import Sirannon.MachineInt

/-!
# Splitting a stream by time

The parts of a stream go to the routes in turn. A part ends when a packet comes
more than an interval behind the reference time, which then moves on by one
interval; with `key` the packet must be a key packet of video as well.
-/

set_option autoImplicit false

namespace Sirannon.GOPSplitter
open MachineInt Media

structure TimeSplitter extends GOP_Splitter where
  iDts : ℤ
  iInterval : ℤ
  bKey : Bool

def TimeSplitter.init (split interval : ℤ) (sync key : Bool) : Except Error TimeSplitter := do
  let s ← GOP_Splitter.init split sync
  return ⟨s, -1, int32 (interval*90), key⟩

def TimeSplitter.start (s : TimeSplitter) (pPckt : MediaPacket) : TimeSplitter :=
  if s.iDts < 0 then { s with iDts := pPckt.dts } else s

def videoKey (pPckt : MediaPacket) : Bool := pPckt.key = true ∧ pPckt.content = .video

def TimeSplitter.splitDue (s : TimeSplitter) (pPckt : MediaPacket) : TimeSplitter :=
  if s.iInterval < int32 (pPckt.dts-s.iDts) ∧ (s.bKey = false ∨ videoKey pPckt = true) then
    { s with toGOP_Splitter := s.split pPckt, iDts := int32 (s.iDts+s.iInterval) }
  else s

/-- The end of `receive`, where the route is changed. -/
def TimeSplitter.send (s : TimeSplitter) (pPckt : MediaPacket) : TimeSplitter :=
  { s with toGOP_Splitter :=
      s.toGOP_Splitter.route s.iCount (pPckt.xroute+s.iCount) pPckt }

def TimeSplitter.receive (s : TimeSplitter) (pPckt : MediaPacket) : TimeSplitter :=
  ((s.start pPckt).splitDue pPckt).send pPckt

def splitTime (split interval : ℤ) (key : Bool) (packets : List MediaPacket) :
    Except Error TimeSplitter := do
  let s ← TimeSplitter.init split interval false key
  return packets.foldl TimeSplitter.receive s

/-! ## Parts -/

/-- The packets cut into parts, where `P` looks at the packets so far and at the number of the
part. Part `k` goes to the route `iRoute+k%n`, and a reset ends it before the next one. -/
def parts (P : List MediaPacket → ℕ → MediaPacket → Bool) (n : ℕ) (iRoute : ℤ) :
    List MediaPacket → ℕ → List MediaPacket → List Event
  | _, _, [] => []
  | past, k, p::ps =>
    if P past k p then
      .reset (iRoute+(k%n : ℕ))::.packet (iRoute+((k+1)%n : ℕ)) { p with unitnumber := 0 }::
        parts P n iRoute (past++[p]) (k+1) ps
    else .packet (iRoute+(k%n : ℕ)) { p with unitnumber := 0 }::parts P n iRoute (past++[p]) k ps

attribute [grind =] parts

section
variable (d₀ iInterval : ℤ)

/-- The number of the interval that the DTS of a packet lies in. -/
def interval (p : MediaPacket) : ℕ := ((p.dts-d₀-1)/iInterval).toNat

/-- The packet does not lie in the interval of the packet before it. -/
def apart (past : List MediaPacket) (p : MediaPacket) : Bool :=
  past.getLast?.any fun q => interval d₀ iInterval q ≠ interval d₀ iInterval p

end

/-- Packets of one route with DTS that do not go back. -/
structure Timed (iRoute : ℤ) (packets : List MediaPacket) : Prop where
  type : ∀ p ∈ packets, p.type = .media
  xroute : ∀ p ∈ packets, p.xroute = iRoute
  low : ∀ p ∈ packets, 0 ≤ p.dts
  high : ∀ p ∈ packets, p.dts < 2^31
  sorted : packets.Pairwise fun p q => p.dts ≤ q.dts

def firstDts (packets : List MediaPacket) : ℤ := packets.head?.elim 0 fun p => p.dts

/-- The parts go to `n` routes in turn, and the units of each route are numbered from 0. -/
def RoutedBy (P : List MediaPacket → ℕ → MediaPacket → Bool) (n : ℕ) (iRoute : ℤ)
    (packets : List MediaPacket) (r : Except Error TimeSplitter) : Prop :=
  ∃ s, r = .ok s ∧ s.routed.map (event iRoute) = parts P n iRoute [] 0 packets ∧
    ∀ xroute, Consecutive (onRoute xroute s.routed)

/-- Every part starts with a key packet of video, the first one too if `bStart`. -/
def KeyStarts : Bool → List Event → Prop
  | _, [] => True
  | _, .reset _::es => KeyStarts true es
  | bStart, .packet _ p::es => (bStart = true → videoKey p = true) ∧ KeyStarts false es
  | bStart, .finish _::es => KeyStarts bStart es

/-- Without `key` a part holds the packets of one interval. With `key` every part starts with a
key packet of video. -/
def SplitsTime (split interval iRoute : ℤ) (key : Bool) (packets : List MediaPacket) : Prop :=
  match key with
  | false => RoutedBy (fun past _ => apart (firstDts packets) (int32 (interval*90)) past)
      split.toNat iRoute packets (splitTime split interval false packets)
  | true => ∃ P, RoutedBy P split.toNat iRoute packets (splitTime split interval true packets) ∧
      KeyStarts true (parts P split.toNat iRoute [] 0 packets)

/-- Without `key`, an interval with two packets has no empty interval before it; with `key` the
first packet is a key packet of video. -/
def Filled (interval : ℤ) (key : Bool) (packets : List MediaPacket) : Prop :=
  match key with
  | false => ∀ a p q b, packets = a++p::q::b →
      GOPSplitter.interval (firstDts packets) (int32 (interval*90)) p =
        GOPSplitter.interval (firstDts packets) (int32 (interval*90)) q →
      ∀ j < GOPSplitter.interval (firstDts packets) (int32 (interval*90)) p, ∃ r ∈ packets,
        GOPSplitter.interval (firstDts packets) (int32 (interval*90)) r = j
  | true => ∀ p, packets.head? = some p → videoKey p = true

/-! ## Intervals -/

section
variable {d₀ iInterval : ℤ} {p q : MediaPacket}

theorem lt_interval_iff (hpos : 0 < iInterval) (k : ℕ) :
    k < interval d₀ iInterval p ↔ iInterval < p.dts-(d₀+k*iInterval) := by
  have hdiv : ((k : ℤ)+1 ≤ (p.dts-d₀-1)/iInterval) ↔ ((k : ℤ)+1)*iInterval ≤ p.dts-d₀-1 :=
    Int.le_ediv_iff_mul_le hpos
  have hmul : ((k : ℤ)+1)*iInterval = k*iInterval+iInterval := by ring
  rw [hmul] at hdiv
  rw [interval]
  omega

/-- The first DTS lies in the first interval. -/
theorem interval_iff (hpos : 0 < iInterval) (hlow : d₀ ≤ p.dts) (k : ℕ) :
    interval d₀ iInterval p = k ↔
      (k = 0 ∧ p.dts = d₀) ∨ (d₀+k*iInterval < p.dts ∧ p.dts ≤ d₀+(k+1)*iInterval) := by
  have hbefore : ∀ j : ℕ, j < interval d₀ iInterval p ↔ iInterval < p.dts-(d₀+j*iInterval) :=
    fun j => lt_interval_iff hpos j
  have habove := not_congr (hbefore k)
  have hmul : ((k : ℤ)+1)*iInterval = k*iInterval+iInterval := by ring
  cases k with
  | zero =>
    rw [Nat.cast_zero, zero_mul] at habove
    rw [hmul, Nat.cast_zero, zero_mul]
    omega
  | succ j =>
    have hbelow := hbefore j
    have hj : ((j+1 : ℕ) : ℤ)*iInterval = j*iInterval+iInterval := by
      push_cast
      ring
    rw [hmul]
    omega

theorem interval_mono (hpos : 0 < iInterval) (h : p.dts ≤ q.dts) :
    interval d₀ iInterval p ≤ interval d₀ iInterval q :=
  Int.toNat_le_toNat (Int.ediv_le_ediv hpos (by omega))

end

/-! ## Receiving -/

section
variable {n k : ℕ} {iRoute d₀ iInterval : ℤ} {key : Bool} {s : TimeSplitter} {p : MediaPacket}
  {past packets : List MediaPacket}

/-- The splitter in part `k`. -/
structure TimeAt (n : ℕ) (iRoute d₀ iInterval : ℤ) (key : Bool) (k : ℕ) (s : TimeSplitter) :
    Prop where
  split : s.iSplit = n
  count : s.iCount = k%n
  dts : s.iDts = d₀+k*iInterval
  interval : s.iInterval = iInterval
  key : s.bKey = key
  numbered : Numbered n iRoute s.toGOP_Splitter

/-- Where the splitter starts a part. -/
def due (d₀ iInterval : ℤ) (key : Bool) (_ : List MediaPacket) (k : ℕ) (p : MediaPacket) : Bool :=
  k < interval d₀ iInterval p ∧ (key = false ∨ videoKey p = true)

theorem due_iff : due d₀ iInterval key past k p = true ↔
    k < interval d₀ iInterval p ∧ (key = false ∨ videoKey p = true) := decide_eq_true_iff

theorem next_start (d₀ iInterval : ℤ) (k : ℕ) :
    d₀+(k+1 : ℕ)*iInterval = d₀+k*iInterval+iInterval := by
  push_cast
  ring

theorem splitDue_eq (h : TimeAt n iRoute d₀ iInterval key k s) (hpos : 0 < iInterval)
    (hfirst : 0 ≤ d₀) (hreached : d₀+k*iInterval ≤ p.dts) (hhigh : p.dts < 2^31) :
    s.splitDue p = if due d₀ iInterval key past k p = true then
      { s with toGOP_Splitter := s.split p, iDts := d₀+(k+1 : ℕ)*iInterval } else s := by
  have hscaled : 0 ≤ (k : ℤ)*iInterval := by positivity
  have hsub : int32 (p.dts-s.iDts) = p.dts-(d₀+k*iInterval) := by
    rw [h.dts]
    exact int32_of_range _ (by omega) (by omega)
  have hsame : due d₀ iInterval key past k p = true ↔
      iInterval < p.dts-(d₀+k*iInterval) ∧ (key = false ∨ videoKey p = true) := by
    rw [due_iff, lt_interval_iff hpos]
  rw [TimeSplitter.splitDue, hsub, h.interval, h.key]
  by_cases hdue : due d₀ iInterval key past k p = true
  · have hgap := (hsame.mp hdue).1
    rw [if_pos hdue, if_pos (hsame.mp hdue), h.dts, int32_of_range _ (by omega) (by omega),
      next_start]
  · rw [if_neg hdue, if_neg fun hc => hdue (hsame.mpr hc)]

theorem time_split (hn : 0 < n) (h : TimeAt n iRoute d₀ iInterval key k s)
    (hroute : p.xroute = iRoute) :
    TimeAt n iRoute d₀ iInterval key (k+1)
      { s with toGOP_Splitter := s.split p, iDts := d₀+(k+1 : ℕ)*iInterval } where
  split := h.split
  count := by
    show (s.iCount+1)%s.iSplit = _
    rw [h.split, h.count, Nat.mod_add_mod]
  dts := rfl
  interval := h.interval
  key := h.key
  numbered := by
    have hnumbered := h.numbered.route (i := s.iCount) (by rw [h.count]; exact Nat.mod_lt k hn)
      (resetPacket p)
    rw [← hroute] at hnumbered ⊢
    exact ⟨hnumbered.count, hnumbered.units⟩

theorem time_send (hn : 0 < n) (h : TimeAt n iRoute d₀ iInterval key k s)
    (hroute : p.xroute = iRoute) : TimeAt n iRoute d₀ iInterval key k (s.send p) where
  split := h.split
  count := h.count
  dts := h.dts
  interval := h.interval
  key := h.key
  numbered := by
    show Numbered n iRoute (s.toGOP_Splitter.route s.iCount (p.xroute+s.iCount) p)
    rw [hroute]
    apply h.numbered.route
    rw [h.count]
    exact Nat.mod_lt k hn

theorem time_send_events (h : TimeAt n iRoute d₀ iInterval key k s) (hroute : p.xroute = iRoute)
    (htype : p.type = .media) :
    (s.send p).routed.map (event iRoute) = s.routed.map (event iRoute)++
      [.packet (iRoute+(k%n : ℕ)) { p with unitnumber := 0 }] := by
  show (s.toGOP_Splitter.route s.iCount (p.xroute+s.iCount) p).routed.map (event iRoute) = _
  rw [route_routed, List.map_append, List.map_singleton]
  simp only [event, numbered, htype, h.count, hroute]

theorem time_split_events (h : TimeAt n iRoute d₀ iInterval key k s) (hroute : p.xroute = iRoute) :
    (s.split p).routed.map (event iRoute) =
      s.routed.map (event iRoute)++[.reset (iRoute+(k%n : ℕ))] := by
  show (s.route s.iCount (p.xroute+s.iCount) (resetPacket p)).routed.map (event iRoute) = _
  rw [route_routed, List.map_append, List.map_singleton, h.count, hroute]
  rfl

theorem start_eq (h : TimeAt n iRoute d₀ iInterval key k s) (hpos : 0 < iInterval)
    (hfirst : 0 ≤ d₀) : s.start p = s := by
  have hscaled : 0 ≤ (k : ℤ)*iInterval := by positivity
  rw [TimeSplitter.start, if_neg (by rw [h.dts]; omega)]

theorem foldl_events (hn : 0 < n) (h : TimeAt n iRoute d₀ iInterval key k s)
    (hpos : 0 < iInterval) (hfirst : 0 ≤ d₀) (hpackets : Timed iRoute packets)
    (hreached : ∀ p ∈ packets, d₀+k*iInterval ≤ p.dts) :
    (packets.foldl TimeSplitter.receive s).routed.map (event iRoute) =
        s.routed.map (event iRoute)++
          parts (due d₀ iInterval key) n iRoute past k packets ∧
      Numbered n iRoute (packets.foldl TimeSplitter.receive s).toGOP_Splitter := by
  induction packets generalizing past k s with
  | nil => exact ⟨(List.append_nil _).symm, h.numbered⟩
  | cons p ps ih =>
    have hxroute := hpackets.xroute p List.mem_cons_self
    have hmedia := hpackets.type p List.mem_cons_self
    rcases List.pairwise_cons.mp hpackets.sorted with ⟨hle, hsorted⟩
    have hrest : Timed iRoute ps :=
      ⟨fun q hq => hpackets.type q (List.mem_cons_of_mem _ hq),
        fun q hq => hpackets.xroute q (List.mem_cons_of_mem _ hq),
        fun q hq => hpackets.low q (List.mem_cons_of_mem _ hq),
        fun q hq => hpackets.high q (List.mem_cons_of_mem _ hq), hsorted⟩
    rw [List.foldl_cons, TimeSplitter.receive, start_eq h hpos hfirst,
      splitDue_eq h hpos hfirst (hreached p List.mem_cons_self)
        (hpackets.high p List.mem_cons_self)]
    by_cases hdue : due d₀ iInterval key past k p = true
    · rw [if_pos hdue]
      have hsplit := time_split hn h hxroute
      have hgap := (lt_interval_iff hpos k).mp (due_iff.mp hdue).1
      have hnext := next_start d₀ iInterval k
      rcases ih (time_send hn hsplit hxroute) hrest (by
        intro q hq
        have hafter := hle q hq
        omega) with ⟨hevents, hnumbered⟩
      refine ⟨?_, hnumbered⟩
      rw [hevents, time_send_events hsplit hxroute hmedia, parts, if_pos hdue]
      simp only
      rw [time_split_events h hxroute, List.append_assoc, List.append_assoc]
      rfl
    · rw [if_neg hdue]
      rcases ih (time_send hn h hxroute) hrest
        (fun q hq => hreached q (List.mem_cons_of_mem _ hq)) with ⟨hevents, hnumbered⟩
      refine ⟨?_, hnumbered⟩
      rw [hevents, time_send_events h hxroute hmedia, parts, if_neg hdue, List.append_assoc]
      rfl

theorem splitTime_events {split ms : ℤ} (key : Bool) (hsplit : 1 ≤ split) (hpos : 0 < int32 (ms*90))
    (hpackets : Timed iRoute packets) :
    RoutedBy (due (firstDts packets) (int32 (ms*90)) key) split.toNat iRoute packets
      (splitTime split ms key packets) := by
  have hn : 0 < split.toNat := by omega
  have hempty : Numbered split.toNat iRoute ⟨0, split.toNat, -1, fun _ => 0, false, []⟩ :=
    ⟨fun _ _ => rfl, fun _ => rfl⟩
  rw [splitTime, TimeSplitter.init, GOP_Splitter.init, if_neg (by omega)]
  refine ⟨_, rfl, ?_⟩
  cases packets with
  | nil => exact ⟨rfl, hempty.units⟩
  | cons p ps =>
    have hlow := hpackets.low p List.mem_cons_self
    have hat : TimeAt split.toNat iRoute p.dts (int32 (ms*90)) key 0
        ⟨⟨0, split.toNat, -1, fun _ => 0, false, []⟩, p.dts, int32 (ms*90), key⟩ :=
      ⟨rfl, (Nat.zero_mod _).symm, by simp, rfl, rfl, hempty⟩
    have hreached : ∀ q ∈ p::ps, p.dts+(0 : ℕ)*int32 (ms*90) ≤ q.dts := by
      intro q hq
      rw [Nat.cast_zero, zero_mul, add_zero]
      rcases List.mem_cons.mp hq with rfl | hq
      · exact le_rfl
      · exact (List.pairwise_cons.mp hpackets.sorted).1 q hq
    rcases foldl_events hn hat hpos hlow hpackets hreached with
      ⟨hevents, hnumbered⟩
    rw [List.foldl_cons, TimeSplitter.receive, start_eq hat hpos hlow] at hevents hnumbered
    exact ⟨hevents, hnumbered.units⟩

end

/-! ## Lagging behind -/

/-- Behind a packet of interval `m` in part `k`, further packets of one interval come only when all
intervals have had their part. -/
def Caught : ℕ → ℕ → List ℕ → Prop
  | _, _, [] => True
  | m, k, j::js => (j = m → k = m) ∧ Caught j (if j = m then k else k+1) js

section
variable {n k m : ℕ} {iRoute d₀ iInterval : ℤ} {past packets : List MediaPacket}

theorem parts_eq_iff (hpast : past.getLast?.map (interval d₀ iInterval) = some m) (hkm : k ≤ m)
    (hafter : ∀ p ∈ packets, m ≤ interval d₀ iInterval p)
    (hsorted : packets.Pairwise fun p q => interval d₀ iInterval p ≤ interval d₀ iInterval q) :
    parts (due d₀ iInterval false) n iRoute past k packets =
        parts (fun past _ => apart d₀ iInterval past) n iRoute past k packets ↔
      Caught m k (packets.map (interval d₀ iInterval)) := by
  induction packets generalizing past k m with
  | nil => exact ⟨fun _ => trivial, fun _ => rfl⟩
  | cons p ps ih =>
    rcases List.pairwise_cons.mp hsorted with ⟨hle, hsorted⟩
    have hp := hafter p List.mem_cons_self
    have hlast : (past++[p]).getLast?.map (interval d₀ iInterval) =
        some (interval d₀ iInterval p) := by
      rw [List.getLast?_append, List.getLast?_singleton]
      rfl
    have hapart : apart d₀ iInterval past p = true ↔ interval d₀ iInterval p ≠ m := by
      rcases hq : past.getLast? with - | q
      · rw [hq] at hpast
        cases hpast
      · rw [hq] at hpast
        obtain rfl := Option.some.inj hpast
        rw [apart, hq, Option.any_some, decide_eq_true_eq]
        exact ne_comm
    rw [parts, parts, List.map_cons, Caught]
    by_cases hsame : interval d₀ iInterval p = m
    · rw [if_neg (fun h => hapart.mp h hsame), if_pos hsame]
      by_cases hk : k = m
      · rw [if_neg (fun h => absurd (due_iff.mp h).1 (by omega)), List.cons_inj_right,
          ih hlast (by omega) hle hsorted]
        exact ⟨fun h => ⟨fun _ => hk, h⟩, fun h => h.2⟩
      · rw [if_pos (due_iff.mpr ⟨by omega, Or.inl rfl⟩)]
        constructor
        · intro h
          cases (List.cons.inj h).1
        · intro h
          exact absurd (h.1 hsame) hk
    · rw [if_pos (hapart.mpr hsame), if_pos (due_iff.mpr ⟨by omega, Or.inl rfl⟩), if_neg hsame,
        List.cons_inj_right, List.cons_inj_right, ih hlast (by omega) hle hsorted]
      exact ⟨fun h => ⟨fun heq => absurd heq hsame, h⟩, fun h => h.2⟩

/-- The part has the number of the interval iff every interval so far had a packet. -/
theorem count_iff {seen : Finset ℕ} (hm : m ∈ seen) (hle : ∀ x ∈ seen, x ≤ m)
    (hcard : seen.card = k+1) : k = m ↔ ∀ x < m, x ∈ seen := by
  have hsub : seen ⊆ Finset.range (m+1) := by
    intro x hx
    rw [Finset.mem_range]
    exact Nat.lt_succ_of_le (hle x hx)
  constructor
  · intro hk x hx
    have heq : seen = Finset.range (m+1) :=
      Finset.eq_of_subset_of_card_le hsub (by rw [hcard, hk, Finset.card_range])
    rw [heq, Finset.mem_range]
    omega
  · intro hall
    have heq : seen = Finset.range (m+1) := by
      apply Finset.Subset.antisymm hsub
      intro x hx
      rw [Finset.mem_range] at hx
      rcases Nat.lt_succ_iff_lt_or_eq.mp hx with hx | rfl
      · exact hall x hx
      · exact hm
    rw [heq, Finset.card_range] at hcard
    omega

theorem caught_iff {seen : Finset ℕ} {js : List ℕ} (hm : m ∈ seen) (hle : ∀ x ∈ seen, x ≤ m)
    (hcard : seen.card = k+1) (hafter : ∀ j ∈ js, m ≤ j) (hsorted : js.Pairwise (· ≤ ·)) :
    Caught m k js ↔
      ∀ a i b, m::js = a++i::i::b → ∀ x < i, x ∈ seen ∨ x ∈ js := by
  induction js generalizing m k seen with
  | nil =>
    constructor
    · intro _ a i b h
      have hlength := congrArg List.length h
      simp at hlength
      omega
    · intro _
      trivial
  | cons j js ih =>
    rcases List.pairwise_cons.mp hsorted with ⟨hjs, hsorted⟩
    have hj := hafter j List.mem_cons_self
    have hfirst : (j = m → k = m) ↔ (j = m → ∀ x < m, x ∈ seen ∨ x ∈ j::js) := by
      apply forall_congr'
      intro _
      rw [count_iff hm hle hcard]
      constructor
      · intro h x hx
        exact Or.inl (h x hx)
      · intro h x hx
        rcases h x hx with h | h
        · exact h
        · have hbelow := hafter x h
          omega
    have hcard' : (insert j seen).card = (if j = m then k else k+1)+1 := by
      by_cases heq : j = m
      · rw [if_pos heq, Finset.insert_eq_of_mem (heq ▸ hm), hcard]
      · have hnew : j ∉ seen := by
          intro hmem
          have hbelow := hle j hmem
          omega
        rw [if_neg heq, Finset.card_insert_of_notMem hnew, hcard]
    have hle' : ∀ x ∈ insert j seen, x ≤ j := by
      intro x hx
      rcases Finset.mem_insert.mp hx with rfl | hx
      · exact le_rfl
      · exact (hle x hx).trans hj
    have hmem : ∀ x, x ∈ insert j seen ∨ x ∈ js ↔ x ∈ seen ∨ x ∈ j::js := by
      intro x
      rw [Finset.mem_insert, List.mem_cons]
      tauto
    rw [Caught, hfirst, ih (Finset.mem_insert_self j seen) hle' hcard' hjs hsorted]
    simp only [hmem]
    constructor
    · rintro ⟨hnow, hrest⟩ a i b h
      cases a with
      | nil =>
        rw [List.nil_append, List.cons.injEq, List.cons.injEq] at h
        rcases h with ⟨rfl, rfl, rfl⟩
        exact hnow rfl
      | cons m' a =>
        rw [List.cons_append, List.cons.injEq] at h
        exact hrest a i b h.2
    · intro hall
      refine ⟨?_, ?_⟩
      · rintro rfl
        exact hall [] j js rfl
      · intro a i b h
        exact hall (m::a) i b (by rw [h, List.cons_append])

theorem sorted_intervals {packets : List MediaPacket} (hpos : 0 < iInterval)
    (hpackets : Timed iRoute packets) : packets.Pairwise fun p q =>
      interval d₀ iInterval p ≤ interval d₀ iInterval q :=
  hpackets.sorted.imp fun h => interval_mono hpos h

theorem interval_first (hpos : 0 < iInterval) (p : MediaPacket) :
    interval p.dts iInterval p = 0 := by
  have hzero : 0 < interval p.dts iInterval p ↔ iInterval < p.dts-(p.dts+(0 : ℕ)*iInterval) :=
    lt_interval_iff hpos 0
  have h := not_congr hzero
  rw [Nat.cast_zero, zero_mul] at h
  omega

theorem parts_first (hpos : 0 < iInterval) (p : MediaPacket) (ps : List MediaPacket) :
    parts (due p.dts iInterval false) n iRoute [] 0 (p::ps) =
        parts (fun past _ => apart p.dts iInterval past) n iRoute [] 0 (p::ps) ↔
      parts (due p.dts iInterval false) n iRoute [p] 0 ps =
        parts (fun past _ => apart p.dts iInterval past) n iRoute [p] 0 ps := by
  have hzero := interval_first hpos p
  rw [parts, parts, if_neg (fun h => absurd (due_iff.mp h).1 (by omega)), if_neg (by simp [apart]),
    List.cons_inj_right, List.nil_append]

theorem filled_iff {ms : ℤ} (hpos : 0 < int32 (ms*90)) {p : MediaPacket} {ps : List MediaPacket}
    (hpackets : Timed iRoute (p::ps)) :
    Filled ms false (p::ps) ↔ Caught 0 0 (ps.map (interval p.dts (int32 (ms*90)))) := by
  have hzero := interval_first hpos p
  have hintervals : (p::ps).Pairwise fun q q' =>
      interval p.dts (int32 (ms*90)) q ≤ interval p.dts (int32 (ms*90)) q' :=
    sorted_intervals hpos hpackets
  have hsorted := (List.pairwise_cons.mp hintervals).2
  rw [caught_iff (k := 0) (Finset.mem_singleton_self 0) (by simp) (Finset.card_singleton 0)
    (by simp) (List.pairwise_map.mpr hsorted)]
  have hmem : ∀ x, (x ∈ ({0} : Finset ℕ) ∨ x ∈ ps.map (interval p.dts (int32 (ms*90)))) ↔
      ∃ r ∈ p::ps, interval p.dts (int32 (ms*90)) r = x := by
    intro x
    rw [Finset.mem_singleton, List.mem_map, List.exists_mem_cons_iff, hzero]
    exact or_congr eq_comm Iff.rfl
  have hmap : 0::ps.map (interval p.dts (int32 (ms*90))) =
      (p::ps).map (interval p.dts (int32 (ms*90))) := by
    rw [List.map_cons, hzero]
  simp only [hmem, hmap, Filled, firstDts, List.head?_cons, Option.elim_some]
  constructor
  · intro hall a i b h
    rcases List.map_eq_append_iff.mp h with ⟨a', r, hsplit, -, hr⟩
    rcases List.map_eq_cons_iff.mp hr with ⟨p', r', rfl, rfl, hr'⟩
    rcases List.map_eq_cons_iff.mp hr' with ⟨q', b', rfl, hq', -⟩
    exact hall a' p' q' b' hsplit hq'.symm
  · intro hall a p' q' b h hsame
    apply hall (a.map (interval p.dts (int32 (ms*90)))) (interval p.dts (int32 (ms*90)) p')
      (b.map (interval p.dts (int32 (ms*90))))
    rw [h, List.map_append, List.map_cons, List.map_cons, hsame]

theorem keyStarts_due (bStart : Bool) (k : ℕ) (past packets : List MediaPacket) :
    KeyStarts bStart (parts (due d₀ iInterval true) n iRoute past k packets) ↔
      (bStart = true → ∀ p, packets.head? = some p → videoKey p = true) := by
  induction packets generalizing bStart k past with
  | nil => simp [parts, KeyStarts]
  | cons p ps ih =>
    have hkey : videoKey { p with unitnumber := 0 } = videoKey p := rfl
    rw [parts]
    by_cases hdue : due d₀ iInterval true past k p = true
    · have hp : videoKey p = true := (due_iff.mp hdue).2.resolve_left (by decide)
      rw [if_pos hdue, KeyStarts, KeyStarts, ih, hkey]
      simp [hp]
    · rw [if_neg hdue, KeyStarts, ih, hkey]
      simp

end

theorem routedBy_parts {P Q : List MediaPacket → ℕ → MediaPacket → Bool} {n : ℕ} {iRoute : ℤ}
    {packets : List MediaPacket} {r : Except Error TimeSplitter}
    (h : RoutedBy P n iRoute packets r) :
    RoutedBy Q n iRoute packets r ↔
      parts P n iRoute [] 0 packets = parts Q n iRoute [] 0 packets := by
  rcases h with ⟨s, hr, hevents, hunits⟩
  constructor
  · rintro ⟨t, ht, hother, -⟩
    rw [hr] at ht
    rw [← hevents, ← hother, Except.ok.inj ht]
  · intro hparts
    exact ⟨s, hr, hevents.trans hparts, hunits⟩

theorem time_splitter_iff (split ms iRoute : ℤ) (key : Bool) (packets : List MediaPacket)
    (hsplit : 1 ≤ split) (hpos : 0 < int32 (ms*90)) (hpackets : Timed iRoute packets) :
    SplitsTime split ms iRoute key packets ↔ Filled ms key packets := by
  have hrouted := splitTime_events key hsplit hpos hpackets
  cases key with
  | false =>
    rw [SplitsTime, routedBy_parts hrouted]
    cases packets with
    | nil => simp [parts, Filled]
    | cons p ps =>
      have hintervals : (p::ps).Pairwise fun q q' =>
          interval p.dts (int32 (ms*90)) q ≤ interval p.dts (int32 (ms*90)) q' :=
        sorted_intervals hpos hpackets
      have hfirst : ([p] : List MediaPacket).getLast?.map (interval p.dts (int32 (ms*90))) =
          some 0 := congrArg some (interval_first hpos p)
      rw [filled_iff hpos hpackets, firstDts, List.head?_cons, Option.elim_some, parts_first hpos,
        parts_eq_iff hfirst le_rfl (by simp) (List.pairwise_cons.mp hintervals).2]
  | true =>
    rw [SplitsTime]
    constructor
    · rintro ⟨P, hP, hkeys⟩
      rw [← (routedBy_parts hrouted).mp hP, keyStarts_due] at hkeys
      exact hkeys rfl
    · intro hfirst
      refine ⟨_, hrouted, ?_⟩
      rw [keyStarts_due]
      exact fun _ => hfirst

/-- A packet of audio. -/
def timedPacket (dts : ℤ) : MediaPacket := { MediaPacket.new .media .audio 0 with dts := dts }

theorem timedPackets {l : List ℤ} (hlow : ∀ t ∈ l, 0 ≤ t ∧ t < 2^31) (hsorted : l.Pairwise (· ≤ ·)) :
    Timed 0 (l.map timedPacket) where
  type := by simp [timedPacket, MediaPacket.new, Metadata.new]
  xroute := by simp [timedPacket, MediaPacket.new, Metadata.new]
  low := by simpa [timedPacket] using fun t ht => (hlow t ht).1
  high := by simpa [timedPacket] using fun t ht => (hlow t ht).2
  sorted := List.pairwise_map.mpr hsorted

theorem example_interval : int32 (1*90) = 90 := int32_of_range _ (by decide) (by decide)

theorem example_positive : 0 < int32 (1*90) := by
  rw [example_interval]
  decide

theorem time_splitter_witness :
    SplitsTime 2 1 0 false ([0, 50, 150, 150, 400].map timedPacket) := by
  have htimed : Timed 0 ([0, 50, 150, 150, 400].map timedPacket) :=
    timedPackets (by decide) (by decide)
  apply (time_splitter_iff 2 1 0 false _ (by decide) example_positive htimed).mpr
  apply (filled_iff example_positive htimed).mpr
  rw [example_interval]
  simp [interval, timedPacket, Caught]

/-- The two packets of the third interval are put into two parts. -/
theorem time_splitter_lags :
    ¬ ∀ (split ms iRoute : ℤ) (key : Bool) (packets : List MediaPacket), 1 ≤ split →
      0 < int32 (ms*90) → Timed iRoute packets → SplitsTime split ms iRoute key packets := by
  intro hall
  have htimed : Timed 0 ([0, 250, 250].map timedPacket) :=
    timedPackets (by decide) (by decide)
  have hsplits := hall 2 1 0 false _ (by decide) example_positive htimed
  rw [SplitsTime, routedBy_parts (splitTime_events _ (by decide) example_positive htimed),
    example_interval] at hsplits
  exact absurd (congrArg List.length hsplits) (by decide)

end Sirannon.GOPSplitter
